import Mathlib
import Dalvik.Json.Decode
import Dalvik.Proofs.IndentedDocument

/-!
# Records that are read back

What a decoder makes of a written value is said once for each way to build decoders (`Reads`), and
so what a record is read as follows from what its fields are read as. A field can be left out when
it holds nothing, so a field is read from a part of the object, which has at most that field
(`ReadsPart`). The fields of a record are read one after the other: as long as no key comes twice,
each of them sees its own part only (`ReadsFields.seq`).
-/

namespace Dalvik
namespace Json

/-! ## Depth -/

namespace Value

/-- An array nests one level more than its items. -/
theorem height_array_le {items : List Value} {n : ℕ} (h : ∀ v ∈ items, v.height ≤ n) :
    (array items).height ≤ n + 1 := by
  have hitems : itemsHeight items ≤ n := by
    induction items with
    | nil => exact Nat.zero_le n
    | cons v rest ih =>
      rw [List.forall_mem_cons] at h
      rw [itemsHeight]
      exact max_le h.1 (ih h.2)
  rw [height]
  exact Nat.succ_le_succ hitems

/-- An object nests one level more than its fields. -/
theorem height_object_le {fields : List (String × Value)} {n : ℕ}
    (h : ∀ f ∈ fields, f.2.height ≤ n) : (object fields).height ≤ n + 1 := by
  have hfields : fieldsHeight fields ≤ n := by
    induction fields with
    | nil => exact Nat.zero_le n
    | cons f rest ih =>
      rw [List.forall_mem_cons] at h
      rw [fieldsHeight]
      exact max_le h.1 (ih h.2)
  rw [height]
  exact Nat.succ_le_succ hfields

theorem height_of_mem_textField {key s : String} {f : String × Value} (h : f ∈ textField key s) :
    f.2.height = 0 := by
  unfold textField at h
  split at h
  · exact absurd h List.not_mem_nil
  · rw [List.mem_singleton.mp h, height]
    all_goals simp

theorem height_of_mem_flagField {key : String} {b : Bool} {f : String × Value}
    (h : f ∈ flagField key b) : f.2.height = 0 := by
  unfold flagField at h
  split at h
  · rw [List.mem_singleton.mp h, height]
    all_goals simp
  · exact absurd h List.not_mem_nil

/-- A list field nests one level more than its items. -/
theorem height_of_mem_listField {α : Type} {key : String} {items : List α} {toJson : α → Value}
    {n : ℕ} (hitems : ∀ a ∈ items, (toJson a).height ≤ n) {f : String × Value}
    (h : f ∈ listField key items toJson) : f.2.height ≤ n + 1 := by
  unfold listField at h
  split at h
  · exact absurd h List.not_mem_nil
  · rw [List.mem_singleton.mp h]
    exact height_array_le (List.forall_mem_map.mpr hitems)

end Value

namespace Decoder

variable {α β σ : Type}

/-! ## Values -/

/-- The written value has no fault and is read as `a`. -/
structure Reads (decoder : Decoder α) (v : Value) (a : α) : Prop where
  fault : decoder.fault? v.toDocument = none
  value : decoder.value [v.toDocument] = a

/-- A document that is parsed is decoded to what it is read as. -/
theorem Reads.run_eq {decoder : Decoder α} {v : Value} {a : α} (h : decoder.Reads v a)
    {bytes : List UInt8} (hparse : Document.parse? bytes = some v.toDocument) :
    decoder.run bytes = .ok a := by
  unfold run
  rw [hparse]
  dsimp only
  rw [h.fault, h.value]

/-- A value on one line is read. -/
theorem Reads.run_compact {decoder : Decoder α} {v : Value} {a : α}
    (h : decoder.Reads v a) (hheight : v.height ≤ Document.maxDepth) :
    decoder.run (Bytes.Utf8.encode v.compact) = .ok a :=
  h.run_eq (Value.parse?_compact hheight)

/-- A document is read. -/
theorem Reads.run_document {decoder : Decoder α} {v : Value} {a : α}
    (h : decoder.Reads v a) (hheight : v.height ≤ Document.maxDepth) :
    decoder.run (Bytes.Utf8.encode v.document) = .ok a :=
  h.run_eq (Value.parse?_document hheight)

/-- A value that is read as a whole, if its document can be read. -/
theorem reads_scalar {zero : α} {read? : Document → Option α} {v : Value} {a : α}
    (h : read? v.toDocument = some a) : (scalar zero read?).Reads v a where
  fault := by
    unfold scalar
    dsimp only
    split
    · rfl
    · rw [h]
      rfl
  value := by
    show ([v.toDocument].filterMap read?).getLast?.getD zero = a
    rw [List.filterMap_cons_some h]
    rfl

theorem reads_text (s : String) : text.Reads (.text s) s :=
  reads_scalar (congrArg some (text_contentBytes .document s))

theorem reads_bool (b : Bool) : bool.Reads (.bool b) b := reads_scalar rfl

/-! ### Numbers -/

/-- The number fits into a signed integer of 64 bits. -/
def FitsInt64 (n : ℤ) : Prop := -0x8000000000000000 ≤ n ∧ n < 0x8000000000000000

/-- Numbers of thirty-two bits fit. -/
theorem fitsInt64_of_lt {n : ℕ} (h : n < 2 ^ 32) : FitsInt64 n := by
  unfold FitsInt64
  omega

theorem fitsInt64_zero : FitsInt64 0 := fitsInt64_of_lt (by decide : 0 < 2 ^ 32)

/-- A number between the bounds is read back from its document. -/
theorem readInt?_toDocument {lo hi n : ℤ} (h : lo ≤ n ∧ n < hi) :
    readInt? lo hi (Value.int n).toDocument = some n := by
  rw [Value.toDocument, readInt?, integer?_toString, Option.filter_some, if_pos]
  rw [Bool.and_eq_true, decide_eq_true_eq, decide_eq_true_eq]
  exact h

theorem reads_int64 {n : ℤ} (h : FitsInt64 n) : int64.Reads (.int n) n :=
  reads_scalar (readInt?_toDocument h)

/-- What is read as an integer of 64 bits is one. -/
theorem fits_value_int64 (ds : List Document) : FitsInt64 (int64.value ds) := by
  show FitsInt64 ((ds.filterMap (readInt? _ _)).getLast?.getD 0)
  cases hlast : (ds.filterMap (readInt? (-0x8000000000000000) 0x8000000000000000)).getLast? with
  | none => exact fitsInt64_zero
  | some n =>
    obtain ⟨d, -, hd⟩ := List.mem_filterMap.mp (List.mem_of_getLast? hlast)
    unfold readInt? at hd
    split at hd
    · have hbounds := (Option.filter_eq_some_iff.mp hd).2
      rw [Bool.and_eq_true, decide_eq_true_eq, decide_eq_true_eq] at hbounds
      exact hbounds
    · cases hd

/-- No sign is written in front of a natural number, so it is read up to the bound. -/
theorem readNat?_toDocument {n bound : ℕ} (h : n < bound) :
    readNat? bound (Value.int n).toDocument = some n := by
  have hread : readInt? 0 bound (Value.int n).toDocument = some (n : ℤ) :=
    readInt?_toDocument (by omega)
  obtain ⟨k, tail, htail, hk, -⟩ := encode_repr_cons n
  have hbytes : Bytes.Utf8.encode (toString (n : ℤ)) = hexByte k :: tail := by
    rw [encode_toString, if_pos (by omega), Int.toNat_natCast, htail]
  rw [Value.toDocument, hbytes] at hread ⊢
  unfold readNat?
  split
  · next hsign =>
    exact absurd (List.cons.inj (Document.number.inj hsign)).1 (hexByte_decimal k hk).2.2.2
  · rw [hread]
    rfl

theorem reads_uint32 (n : UInt32) : uint32.Reads (.int n.toNat) n := by
  apply reads_scalar
  rw [readNat?_toDocument n.toNat_lt, Option.map_some, Nat.toUInt32, UInt32.ofNat_toNat]

theorem reads_uint16 (n : UInt16) : uint16.Reads (.int n.toNat) n := by
  apply reads_scalar
  rw [readNat?_toDocument n.toNat_lt, Option.map_some, Nat.toUInt16, UInt16.ofNat_toNat]

/-! ### Lists and values that may be absent -/

theorem itemDocuments_eq_map (items : List Value) :
    Value.itemDocuments items = items.map Value.toDocument := by
  induction items with
  | nil => rfl
  | cons v rest ih => rw [Value.itemDocuments, ih, List.map_cons]

/-- An array that is read once has one document in each slot. -/
theorem slots_array (docs : List Document) :
    ((Slots.read {} (.array docs)).held.take (Slots.read {} (.array docs)).size)
      = docs.map fun d => [d] := by
  cases docs with
  | nil => rfl
  | cons d docs => simp [Slots.read, Slots.layer]

/-- A list is read back if its items are. -/
theorem reads_list {item : Decoder α} {toJson : α → Value} {items : List α}
    (h : ∀ a ∈ items, item.Reads (toJson a) a) :
    (list item).Reads (.array (items.map toJson)) items := by
  have hdocuments : (Value.array (items.map toJson)).toDocument
      = .array (items.map fun a => (toJson a).toDocument) := by
    rw [Value.toDocument, itemDocuments_eq_map, List.map_map]
    rfl
  refine ⟨?_, ?_⟩
  · rw [hdocuments]
    show (items.map fun a => (toJson a).toDocument).findSome? item.fault? = none
    rw [List.findSome?_map, List.findSome?_eq_none_iff]
    exact fun a ha => (h a ha).fault
  · rw [hdocuments]
    show ((Slots.read {} _).held.take (Slots.read {} _).size).map item.value = items
    rw [slots_array, List.map_map, List.map_map]
    exact (List.map_congr_left fun a ha => (h a ha).value).trans (List.map_id items)

/-- A value that is there, if it is not written as `null`. -/
theorem reads_some {item : Decoder α} {v : Value} {a : α} (h : item.Reads v a)
    (hnull : v.toDocument.isNull = false) : (optional item).Reads v (some a) := by
  refine ⟨?_, ?_⟩
  · unfold optional
    dsimp only
    split
    · rfl
    · exact h.fault
  · unfold optional
    simp [hnull, h.value]

theorem reads_none (item : Decoder α) : (optional item).Reads .null none := ⟨rfl, rfl⟩

/-! ## Parts of objects -/

/-- The part of an object holds at most the field with the key, and this is read as `a`. -/
structure ReadsPart (item : Decoder α) (key : String) (part : List (String × Value))
    (a : α) : Prop where
  keys : ∀ f ∈ part, f.1 = key
  faults : ∀ f ∈ part, item.fault? f.2.toDocument = none
  value : item.value (part.map fun f => f.2.toDocument) = a

/-- A field that is written. -/
theorem Reads.part {item : Decoder α} {v : Value} {a : α} (h : item.Reads v a)
    (key : String) : item.ReadsPart key [(key, v)] a where
  keys := by simp
  faults := by simp [h.fault]
  value := h.value

/-- A field that is left out. -/
theorem readsPart_nil {item : Decoder α} {a : α} (h : item.value [] = a)
    (key : String) : item.ReadsPart key [] a where
  keys := by simp
  faults := by simp
  value := h

/-- A text field is read back, left out or not. -/
theorem readsPart_textField (key s : String) : text.ReadsPart key (Value.textField key s) s := by
  unfold Value.textField
  split
  · next hempty => exact readsPart_nil (String.isEmpty_iff.mp hempty).symm key
  · exact (reads_text s).part key

/-- A flag is read back, left out or not. -/
theorem readsPart_flagField (key : String) (b : Bool) :
    bool.ReadsPart key (Value.flagField key b) b := by
  cases b
  · exact readsPart_nil rfl key
  · exact (reads_bool true).part key

/-- A list field is read back, left out or not, if its items are. -/
theorem readsPart_listField {item : Decoder α} {toJson : α → Value} {items : List α}
    (h : ∀ a ∈ items, item.Reads (toJson a) a) (key : String) :
    (list item).ReadsPart key (Value.listField key items toJson) items := by
  unfold Value.listField
  split
  · next hempty => exact readsPart_nil (List.isEmpty_iff.mp hempty).symm key
  · exact (reads_list h).part key

/-- A field that may be absent is read back, absent or not. -/
theorem readsPart_optional {item : Decoder α} {toJson : α → Value} {o : Option α}
    (h : ∀ a ∈ o, (optional item).Reads (toJson a) (some a)) (key : String) :
    (optional item).ReadsPart key (o.map fun a => (key, toJson a)).toList o := by
  cases o with
  | none => exact readsPart_nil rfl key
  | some a => exact (h a rfl).part key

/-! ## Fields -/

/-- The fields of a written object come back under their folded keys. -/
theorem foldedFields_toDocument (fields : List (String × Value)) :
    foldedFields (Value.object fields).toDocument
      = fields.map fun f => (foldKey f.1, f.2.toDocument) := by
  rw [Value.toDocument, Value.fieldDocuments_eq_map, foldedFields, List.map_map]
  apply List.map_congr_left
  intro f _
  show (foldKey (Literal.text (contentBytes .document f.1)), f.2.toDocument) = _
  rw [text_contentBytes]

/-- A record that was written is read field by field. -/
theorem record_toDocument (fields : Fields σ) (written : List (String × Value)) :
    (record fields).fault? (Value.object written).toDocument
        = written.findSome? (fun f => fields.fault? (foldKey f.1) f.2.toDocument) ∧
      (record fields).value [(Value.object written).toDocument]
        = fields.value (written.map fun f => (foldKey f.1, f.2.toDocument)) := by
  have hfields := foldedFields_toDocument written
  refine ⟨?_, ?_⟩
  · have hfault : (record fields).fault? (Value.object written).toDocument
        = (foldedFields (Value.object written).toDocument).findSome?
            fun f => fields.fault? f.1 f.2 := by
      rw [Value.toDocument]
      rfl
    rw [hfault, hfields, List.findSome?_map]
    rfl
  -- one document has been seen, so all fields are its own
  · show fields.value (List.flatMap foldedFields [(Value.object written).toDocument]) = _
    rw [List.flatMap_singleton, hfields]

/-- Mapping the result of fields changes neither their faults nor what they look at. -/
theorem fields_map (f : α → β) (x : Fields α) :
    (f <$> x).fault? = x.fault? ∧ (f <$> x).value = fun fields => f (x.value fields) := by
  refine ⟨?_, rfl⟩
  funext key d
  exact Option.none_or

/-- The fields have no faults and are read as `a` wherever they stand among fields under other
keys; `owned` are the keys that are looked at. -/
structure ReadsFields (fields : Fields σ) (owned : List (List Char))
    (written : List (String × Value)) (a : σ) : Prop where
  keys : ∀ f ∈ written, foldKey f.1 ∈ owned
  faults : ∀ f ∈ written, fields.fault? (foldKey f.1) f.2.toDocument = none
  foreign : ∀ key, key ∉ owned → ∀ d, fields.fault? key d = none
  value : ∀ all : List (List Char × Document),
    (all.filter fun f => f.1 ∈ owned) = written.map (fun f => (foldKey f.1, f.2.toDocument)) →
      fields.value all = a

/-- A record of these fields. -/
theorem ReadsFields.record {fields : Fields σ} {owned : List (List Char)}
    {written : List (String × Value)} {a : σ} (h : ReadsFields fields owned written a) :
    (record fields).Reads (.object written) a where
  fault := by
    rw [(record_toDocument fields written).1, List.findSome?_eq_none_iff]
    exact h.faults
  value := by
    rw [(record_toDocument fields written).2]
    apply h.value
    rw [List.filter_eq_self]
    intro f hf
    obtain ⟨g, hg, rfl⟩ := List.mem_map.mp hf
    exact decide_eq_true (h.keys g hg)

/-- A single field is a record of one part. -/
theorem ReadsPart.fields {item : Decoder α} {key : String}
    {part : List (String × Value)} {a : α} (h : item.ReadsPart key part a) :
    ReadsFields (field key item) [foldKey key] part a where
  keys := by
    intro f hf
    rw [h.keys f hf]
    exact List.mem_singleton_self _
  faults := by
    intro f hf
    show (if foldKey f.1 = foldKey key then item.fault? f.2.toDocument else none) = none
    rw [h.keys f hf, if_pos rfl, h.faults f hf]
  foreign := by
    intro key' hkey' d
    exact if_neg (List.mem_singleton.not.mp hkey')
  value := by
    intro all hall
    have hown : (all.filter fun f => f.1 = foldKey key)
        = part.map fun f => (foldKey f.1, f.2.toDocument) := by
      simpa only [List.mem_singleton] using hall
    show item.value ((all.filter fun f => f.1 = foldKey key).map (·.2)) = a
    rw [hown, List.map_map]
    exact h.value

/-- What the fields are read as can be put into another form. -/
theorem ReadsFields.map {x : Fields α} {owned : List (List Char)}
    {written : List (String × Value)} {a : α} (h : ReadsFields x owned written a) (f : α → β) :
    ReadsFields (f <$> x) owned written (f a) where
  keys := h.keys
  faults := by
    rw [(fields_map f x).1]
    exact h.faults
  foreign := by
    rw [(fields_map f x).1]
    exact h.foreign
  value := by
    intro all hall
    rw [(fields_map f x).2]
    exact congrArg f (h.value all hall)

/-- Of fields under two lists of keys that have no key in common, either list has its own. -/
theorem filter_keys_append {keys keys' : List (List Char)} (hdisjoint : keys.Disjoint keys')
    {all fields fields' : List (List Char × Document)} (h : ∀ f ∈ fields, f.1 ∈ keys)
    (h' : ∀ f ∈ fields', f.1 ∈ keys')
    (hall : (all.filter fun f => f.1 ∈ keys ++ keys') = fields ++ fields') :
    (all.filter fun f => f.1 ∈ keys) = fields ∧ (all.filter fun f => f.1 ∈ keys') = fields' := by
  have hside : ∀ side : List (List Char), side ⊆ keys ++ keys' →
      (all.filter fun f => f.1 ∈ side) = (fields ++ fields').filter fun f => f.1 ∈ side := by
    intro side hsub
    rw [← hall, List.filter_filter]
    apply List.filter_congr
    intro f _
    rw [← Bool.decide_and]
    exact decide_eq_decide.mpr ⟨fun hf => ⟨hf, hsub hf⟩, And.left⟩
  have hself : ∀ {side : List (List Char)} {fs : List (List Char × Document)},
      (∀ f ∈ fs, f.1 ∈ side) → (fs.filter fun f => f.1 ∈ side) = fs := by
    intro side fs hfs
    exact List.filter_eq_self.mpr fun f hf => decide_eq_true (hfs f hf)
  have hnone : ∀ {side : List (List Char)} {fs : List (List Char × Document)},
      (∀ f ∈ fs, f.1 ∉ side) → (fs.filter fun f => f.1 ∈ side) = [] := by
    intro side fs hfs
    exact List.filter_eq_nil_iff.mpr fun f hf => by simpa using hfs f hf
  refine ⟨?_, ?_⟩
  · rw [hside keys (List.subset_append_left _ _), List.filter_append, hself h,
      hnone fun f hf hkey => hdisjoint hkey (h' f hf), List.append_nil]
  · rw [hside keys' (List.subset_append_right _ _), List.filter_append, hself h',
      hnone fun f hf hkey => hdisjoint (h f hf) hkey, List.nil_append]

/-- One more field, under a key that is not looked at yet. -/
theorem ReadsFields.seq {f : Fields (α → β)} {owned : List (List Char)}
    {written : List (String × Value)} {g : α → β} (h : ReadsFields f owned written g)
    {item : Decoder α} {key : String} {part : List (String × Value)} {a : α}
    (hitem : item.ReadsPart key part a) (hnew : foldKey key ∉ owned) :
    ReadsFields (f <*> field key item) (owned ++ [foldKey key]) (written ++ part) (g a) := by
  have hx := hitem.fields
  have hdisjoint : owned.Disjoint [foldKey key] := List.disjoint_singleton.mpr hnew
  have hfault : ∀ key' d, (f <*> field key item).fault? key' d
      = (f.fault? key' d).or ((field key item).fault? key' d) := fun _ _ => rfl
  refine ⟨?_, ?_, ?_, ?_⟩
  · intro p hp
    rw [List.mem_append]
    exact (List.mem_append.mp hp).imp (h.keys p) (hx.keys p)
  · intro p hp
    rw [hfault]
    rcases List.mem_append.mp hp with hp | hp
    · rw [h.faults p hp, hx.foreign _ (hdisjoint (h.keys p hp))]
      rfl
    · rw [h.foreign _ fun hkey => hdisjoint hkey (hx.keys p hp), hx.faults p hp]
      rfl
  · intro key' hkey' d
    rw [List.mem_append, not_or] at hkey'
    rw [hfault, h.foreign key' hkey'.1, hx.foreign key' hkey'.2]
    rfl
  -- either side looks at its own part of the fields only
  · intro all hall
    rw [List.map_append] at hall
    obtain ⟨hleft, hright⟩ := filter_keys_append hdisjoint
      (List.forall_mem_map.mpr h.keys) (List.forall_mem_map.mpr hx.keys) hall
    show f.value all ((field key item).value all) = g a
    rw [h.value all hleft, hx.value all hright]

end Decoder
end Json
end Dalvik
