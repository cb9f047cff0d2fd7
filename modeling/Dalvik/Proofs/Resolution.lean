import Mathlib
import Dalvik.Proofs.HandlerArea

/-!
# Offsets of try items

A try item is given the handler list that starts at its offset in the handler area. All lists are
read first, whether or not a try item refers to them, so what can still go wrong then is known from
the offsets alone: the first try item whose offset is none of those at which lists start is reported
(`resolvesBy_of_form`).
-/

namespace Dalvik
namespace CodeItem

open Bytes Reader

/-! ## Items that can be read -/

/-- The bytes run short, or hold a number that is not one. -/
def Fault.IsUnreadable (f : Fault) : Prop := f.toClass = .truncated ∨ f.toClass = .leb128

theorem faultsIn_located {α : Type} (place : Place) (r : Reader ReadFault α) :
    FaultsIn Fault.IsUnreadable (located place r) := by
  intro c f h
  have hmap : (r c).mapError (Fault.read place) = .error f := h
  cases hrun : r c with
  | ok p =>
    rw [hrun] at hmap
    cases hmap
  | error e =>
    rw [hrun] at hmap
    cases hmap
    cases e with
    | truncated needed pos available => exact .inl rfl
    | leb128 pos => exact .inr rfl

/-- A list of handlers has no fault but one that makes the item unreadable. -/
theorem faultsIn_readHandlerList (i : ℕ) : FaultsIn Fault.IsUnreadable (readHandlerList i) := by
  refine (faultsIn_located _ _).bind fun size => ?_
  have hrest : FaultsIn Fault.IsUnreadable (do
      let typed ← located (.handlerList i) (collect readHandler 0 size.natAbs #[])
      if size ≤ 0 then do
        let addr ← located (.handlerList i) uleb128
        return (typed.push ⟨CatchHandler.noIndex, addr⟩).toList
      else return typed.toList) := by
    refine (faultsIn_located _ _).bind fun typed => ?_
    split
    · exact (faultsIn_located _ _).bind fun addr => .pure _
    · exact .pure _
  dsimp only
  split
  · exact (FaultsIn.throw (.inr rfl)).bind fun _ => hrest
  · exact hrest

/-- Reading without resolving fails for unreadable bytes only. -/
theorem faultsIn_readParts : FaultsIn Fault.IsUnreadable readParts := by
  have hget : FaultsIn Fault.IsUnreadable (get : Reader Fault Cursor) := by
    intro c f h
    cases h
  have hlist : ∀ areaStart i, FaultsIn Fault.IsUnreadable (readListAt areaStart i) := fun _ i =>
    hget.bind fun c => (faultsIn_readHandlerList i).bind fun handlers => .pure _
  have harea : ∀ n, FaultsIn Fault.IsUnreadable (readArea n) := fun n =>
    (FaultsIn.collect (fun i => faultsIn_located _ _) _ _ _).bind fun items =>
      hget.bind fun c => (faultsIn_located _ _).bind fun count =>
        (FaultsIn.collect (hlist _) _ _ _).bind fun lists => .pure _
  have htables : ∀ units n, FaultsIn Fault.IsUnreadable (readTables units n) := by
    intro units n
    rw [readTables, readPadded]
    split
    · exact .pure _
    · split
      · exact (faultsIn_located _ _).bind fun _ => harea _
      · exact harea _
  refine (faultsIn_located _ _).bind fun registers => (faultsIn_located _ _).bind fun ins => ?_
  refine (faultsIn_located _ _).bind fun outs => (faultsIn_located _ _).bind fun tryCount => ?_
  refine (faultsIn_located _ _).bind fun debugInfo => (faultsIn_located _ _).bind fun units => ?_
  refine (faultsIn_located _ _).bind fun _ => (faultsIn_located _ _).bind fun code => ?_
  exact (htables _ _).bind fun tables => .pure _

/-- The parse of an item is decided by its parts. -/
theorem parse_of_form {u : Unresolved} {front : List UInt8} (h : u.Form front) (rest : List UInt8) :
    parse (front ++ rest) = u.parts.resolve front.length := by
  have hread : read ⟨0, front ++ rest⟩
      = (u.parts.resolve front.length).map fun item => (item, ⟨front.length, rest⟩) := by
    rw [read_eq_readParts, bind_of_ok (reads_parts h 0 rest), Nat.zero_add]
    show (liftM (u.parts.resolve front.length) : Reader Fault _) _ = _
    cases u.parts.resolve front.length <;> rfl
  rw [parse, hread]
  cases u.parts.resolve front.length <;> rfl

/-! ## Try items -/

/-- The try block has the range of the try item and the handlers that stand at its offset. -/
def ResolvesTo (placed : List (ℕ × List CatchHandler)) (t : UInt32 × UInt16 × UInt16)
    (b : TryBlock) : Prop :=
  t.1 = b.start ∧ t.2.1 = b.count ∧ placed.lookup t.2.2.toNat = some b.handlers

/-- Either every try item leads to a list, or the first one that does not is reported. -/
theorem resolveTries_cases (placed : List (ℕ × List CatchHandler)) (i : ℕ)
    (items : List (UInt32 × UInt16 × UInt16)) (acc : Array TryBlock) :
    (∃ blocks, resolveTries placed i items acc = .ok (acc.toList ++ blocks) ∧
      List.Forall₂ (ResolvesTo placed) items blocks) ∨
    ∃ front start count off back, items = front ++ (start, count, off) :: back ∧
      (∀ t ∈ front, placed.lookup t.2.2.toNat ≠ none) ∧ placed.lookup off.toNat = none ∧
      resolveTries placed i items acc = .error (.handlerOffset (i + front.length) off.toNat) := by
  induction items generalizing i acc with
  | nil => exact .inl ⟨[], by rw [resolveTries, List.append_nil], .nil⟩
  | cons t items ih =>
    obtain ⟨start, count, off⟩ := t
    rw [resolveTries]
    cases hlookup : placed.lookup off.toNat with
    | none =>
      refine .inr ⟨[], start, count, off, items, rfl, ?_, hlookup, rfl⟩
      simp
    | some handlers =>
      rcases ih (i + 1) (acc.push ⟨start, count, handlers⟩) with
        ⟨blocks, hok, hall⟩ | ⟨front, start', count', off', back, rfl, hfront, hnone, herror⟩
      · refine .inl ⟨⟨start, count, handlers⟩ :: blocks, ?_, .cons ⟨rfl, rfl, hlookup⟩ hall⟩
        simp [hok]
      · refine .inr ⟨(start, count, off) :: front, start', count', off', back, rfl, ?_, hnone, ?_⟩
        · exact List.forall_mem_cons.mpr ⟨by simp [hlookup], hfront⟩
        · rw [List.length_cons, ← Nat.add_assoc, Nat.add_right_comm]
          exact herror

/-! ## Offsets of handler lists -/

theorem getElem?_offsets {off j o : ℕ} {chunks : List (List UInt8)}
    (h : (offsets off chunks)[j]? = some o) :
    j < chunks.length ∧ o = off + (chunks.take j).flatten.length := by
  induction chunks generalizing off j with
  | nil => simp [offsets] at h
  | cons chunk chunks ih =>
    rw [offsets] at h
    cases j with
    | zero =>
      rw [List.getElem?_cons_zero, Option.some.injEq] at h
      simp [h]
    | succ j =>
      rw [List.getElem?_cons_succ] at h
      obtain ⟨hj, rfl⟩ := ih h
      rw [List.take_succ_cons, List.flatten_cons, List.length_append, List.length_cons]
      omega

/-- Chunks that are not empty start at ascending offsets. -/
theorem pairwise_offsets {chunks : List (List UInt8)} (hchunks : ∀ c ∈ chunks, 0 < c.length)
    (off : ℕ) : (offsets off chunks).Pairwise (· < ·) := by
  induction chunks generalizing off with
  | nil => exact .nil
  | cons chunk chunks ih =>
    rw [List.forall_mem_cons] at hchunks
    rw [offsets, List.pairwise_cons]
    refine ⟨fun o ho => ?_, ih hchunks.2 _⟩
    obtain ⟨j, hj⟩ := List.mem_iff_getElem?.mp ho
    have := (getElem?_offsets hj).2
    omega

/-- No chunk of forms is empty. -/
theorem length_pos_of_forms {lists : List HandlerList} {chunks : List (List UInt8)}
    (h : List.Forall₂ HandlerList.Form lists chunks) : ∀ c ∈ chunks, 0 < c.length := by
  induction h with
  | nil => simp
  | cons hfirst _ ih => exact List.forall_mem_cons.mpr ⟨hfirst.length_pos, ih⟩

namespace HandlerArea

variable (a : HandlerArea)

theorem nodup_offsets : a.offsets.Nodup :=
  (pairwise_offsets (length_pos_of_forms a.chunk_forms) _).imp fun h => Nat.ne_of_lt h

/-- A form of the list starts at the offset. -/
def StartsAt (off : ℕ) (l : HandlerList) : Prop :=
  ∃ chunk, l.Form chunk ∧ chunk <+: a.bytes.drop off

/-- At the offset of a list stand its bytes and those of the lists behind it. -/
theorem drop_bytes (j : ℕ) :
    a.bytes.drop (a.number.length + (a.chunks.take j).flatten.length)
      = (a.chunks.drop j).flatten := by
  have hsplit : a.bytes = a.number ++ ((a.chunks.take j).flatten ++ (a.chunks.drop j).flatten) := by
    rw [bytes, ← List.flatten_append, List.take_append_drop]
  rw [hsplit, ← List.drop_drop, List.drop_left, List.drop_left]

/-- The list with the index `j` is found at its offset. -/
theorem lookup_placed {j off : ℕ} (h : a.offsets[j]? = some off) :
    ∃ l, a.lists[j]? = some l ∧ a.StartsAt off l ∧ a.placed.lookup off = some l.handlers := by
  obtain ⟨hj, rfl⟩ := getElem?_offsets h
  have hlen := a.chunk_forms.length_eq
  have hj' : j < a.lists.length := by rwa [hlen]
  refine ⟨a.lists[j], List.getElem?_eq_getElem hj', ⟨a.chunks[j], ?_, ?_⟩, ?_⟩
  · exact a.chunk_forms.get hj' hj
  · rw [drop_bytes, List.drop_eq_getElem_cons hj, List.flatten_cons]
    exact List.prefix_append _ _
  · rw [placed, offsets, lookup_offsets (length_pos_of_forms a.chunk_forms)
      (by rw [List.length_map, hlen]) _ hj, List.getElem?_map, List.getElem?_eq_getElem hj']
    rfl

theorem lookup_placed_eq_none_iff (off : ℕ) : a.placed.lookup off = none ↔ off ∉ a.offsets := by
  constructor
  · intro hnone hmem
    obtain ⟨j, hj⟩ := List.mem_iff_getElem?.mp hmem
    obtain ⟨l, -, -, hsome⟩ := a.lookup_placed hj
    rw [hnone] at hsome
    cases hsome
  · intro hmem
    rw [List.lookup_eq_none_iff]
    intro p hp
    rw [bne_iff_ne]
    intro heq
    rw [heq] at hmem
    exact hmem (List.of_mem_zip hp).1

end HandlerArea

namespace Unresolved

variable (u : Unresolved)

/-- The number of handler lists that is declared. -/
def listCount : ℕ := (u.area.map fun a => a.count.toNat).getD 0

theorem nodup_offsets : u.offsets.Nodup := by
  rw [offsets]
  cases u.area with
  | none => exact List.nodup_nil
  | some a => exact a.nodup_offsets

theorem lookup_placed_eq_none_iff (off : ℕ) : u.placed.lookup off = none ↔ off ∉ u.offsets := by
  rw [placed, offsets]
  cases u.area with
  | none => simp
  | some a => exact a.lookup_placed_eq_none_iff off

theorem length_lists : u.lists.length = u.listCount := by
  rw [lists, listCount]
  cases u.area with
  | none => rfl
  | some a => exact a.length_lists

theorem map_placed : u.placed.map (·.2) = u.lists.map HandlerList.handlers := by
  rw [placed, lists]
  cases u.area with
  | none => rfl
  | some a =>
    apply List.map_snd_zip
    rw [HandlerArea.offsets, length_offsets, List.length_map, a.chunk_forms.length_eq]

/-- The list with the index `j` starts at the offset. -/
def ListAt (off j : ℕ) (l : HandlerList) : Prop :=
  ∃ a : HandlerArea, u.area = some a ∧ a.offsets[j]? = some off ∧ a.lists[j]? = some l ∧
    a.StartsAt off l

/-- What an offset leads to are the handlers of the list that starts there. -/
theorem exists_listAt {off : ℕ} {hs : List CatchHandler} (h : u.placed.lookup off = some hs) :
    ∃ j l, u.ListAt off j l ∧ hs = l.handlers := by
  have hmem : off ∈ u.offsets := by
    by_contra hno
    rw [(u.lookup_placed_eq_none_iff off).mpr hno] at h
    cases h
  cases harea : u.area with
  | none =>
    rw [offsets, harea] at hmem
    cases hmem
  | some a =>
    rw [offsets, harea] at hmem
    rw [placed, harea] at h
    obtain ⟨j, hj⟩ := List.mem_iff_getElem?.mp hmem
    obtain ⟨l, hl, hstarts, hlookup⟩ := a.lookup_placed hj
    refine ⟨j, l, ⟨a, harea, hj, hl, hstarts⟩, ?_⟩
    exact Option.some.inj (h.symm.trans hlookup)

theorem ListAt.getElem?_lists {u : Unresolved} {off j : ℕ} {l : HandlerList}
    (h : u.ListAt off j l) : u.lists[j]? = some l := by
  obtain ⟨a, harea, -, hl, -⟩ := h
  rw [lists, harea]
  exact hl

end Unresolved

/-! ## Resolved items -/

/-- The try blocks of the code item have the handlers that stand at the offsets of the try items. -/
structure Resolved (u : Unresolved) (c : CodeItem) : Prop where
  /-- There are as many lists as declared, -/
  listCount : c.handlerLists.length = u.listCount
  /-- in the order in which they stand. -/
  lists : c.handlerLists = u.lists.map HandlerList.handlers
  /-- There are as many try blocks as declared. -/
  tryCount : c.tries.length = u.tryCount.toNat
  someList : c.tries ≠ [] → c.handlerLists ≠ []
  /-- The handlers of a try block are those of the list that starts at the offset of its item. -/
  handlers : ∀ (i : ℕ) (b : TryBlock), c.tries[i]? = some b →
    ∃ (off : UInt16) (j : ℕ) (l : HandlerList), u.tries[i]? = some (b.start, b.count, off) ∧
      u.ListAt off.toNat j l ∧ b.handlers = l.handlers ∧ c.handlerLists[j]? = some b.handlers

/-- The try items of `u` are resolved by the offsets of the handler lists. -/
structure ResolvesBy (u : Unresolved) (result : Except Fault CodeItem) : Prop where
  /-- No two lists start at the same offset. -/
  distinct : u.offsets.Nodup
  /-- A try item fails if no list starts at its offset. -/
  fails_iff : (∃ f, result = .error f ∧ f.toClass = .handlerOffset) ↔
    ∃ t ∈ u.tries, t.2.2.toNat ∉ u.offsets
  /-- The first such try item is the one that is reported. -/
  first : ∀ f, result = .error f → f.toClass = .handlerOffset →
    ∃ front start count off back, u.tries = front ++ (start, count, off) :: back ∧
      (∀ t ∈ front, t.2.2.toNat ∈ u.offsets) ∧ off.toNat ∉ u.offsets ∧
      f = .handlerOffset front.length off.toNat
  /-- Else the item is accepted if no try item starts before the one in front of it ends. -/
  accepted_iff : (∃ c, result = .ok c) ↔ (∀ t ∈ u.tries, t.2.2.toNat ∈ u.offsets) ∧
    u.tries.IsChain fun s t => s.1.toNat + s.2.1.toNat ≤ t.1.toNat
  /-- There are no other faults. -/
  faults : ∀ f, result = .error f → f.toClass = .handlerOffset ∨ f.toClass = .triesOrder
  resolved : ∀ c, result = .ok c → Resolved u c

section

variable {u : Unresolved} {blocks : List TryBlock}

/-- The try blocks have the ranges of the try items. -/
theorem sorted_iff_of_resolvesTo (hall : List.Forall₂ (ResolvesTo u.placed) u.tries blocks) :
    TryBlock.sorted blocks = true ↔
      u.tries.IsChain fun s t => s.1.toNat + s.2.1.toNat ≤ t.1.toNat := by
  have hranges : u.tries.map (fun t => (t.1, t.2.1)) = blocks.map fun b => (b.start, b.count) := by
    rw [← List.forall₂_eq_eq_eq, List.forall₂_map_left_iff, List.forall₂_map_right_iff]
    exact hall.imp fun t b h => Prod.ext h.1 h.2.1
  have hblocks : blocks.IsChain (fun s t => s.stop ≤ t.start.toNat) ↔
      (blocks.map fun b => (b.start, b.count)).IsChain fun s t =>
        s.1.toNat + s.2.toNat ≤ t.1.toNat := by
    rw [List.isChain_map]
    rfl
  rw [TryBlock.sorted_iff_isChain, hblocks, ← hranges, List.isChain_map]

/-- Tries that resolve refer to lists. -/
theorem mem_offsets_of_resolvesTo (hall : List.Forall₂ (ResolvesTo u.placed) u.tries blocks) :
    ∀ t ∈ u.tries, t.2.2.toNat ∈ u.offsets := by
  intro t ht
  obtain ⟨i, hi, rfl⟩ := List.mem_iff_getElem.mp ht
  obtain ⟨-, -, hlookup⟩ := hall.get hi (by rwa [← hall.length_eq])
  by_contra hno
  rw [List.get_eq_getElem, (u.lookup_placed_eq_none_iff _).mpr hno] at hlookup
  cases hlookup

/-- An item whose tries resolve has the handlers of their lists. -/
theorem resolved_of_resolvesTo (hall : List.Forall₂ (ResolvesTo u.placed) u.tries blocks)
    {c : CodeItem} (htries : c.tries = blocks)
    (hlists : c.handlerLists = u.lists.map HandlerList.handlers) : Resolved u c := by
  have hhandlers : ∀ (i : ℕ) (b : TryBlock), c.tries[i]? = some b →
      ∃ (off : UInt16) (j : ℕ) (l : HandlerList), u.tries[i]? = some (b.start, b.count, off) ∧
        u.ListAt off.toNat j l ∧ b.handlers = l.handlers ∧
        c.handlerLists[j]? = some b.handlers := by
    intro i b hb
    rw [htries] at hb
    obtain ⟨hi, rfl⟩ := List.getElem?_eq_some_iff.mp hb
    have hi' : i < u.tries.length := by rwa [hall.length_eq]
    obtain ⟨hstart, hcount, hlookup⟩ := hall.get hi' hi
    obtain ⟨j, l, hat, hhandlers⟩ := u.exists_listAt hlookup
    refine ⟨u.tries[i].2.2, j, l, ?_, hat, hhandlers, ?_⟩
    · rw [List.getElem?_eq_getElem hi', Option.some.injEq]
      exact Prod.ext hstart (Prod.ext hcount rfl)
    · rw [hlists, List.getElem?_map, hat.getElem?_lists]
      exact congrArg some hhandlers.symm
  constructor
  · rw [hlists, List.length_map, u.length_lists]
  · exact hlists
  · rw [htries, ← hall.length_eq, u.length_tries]
  · intro hsome hnone
    obtain ⟨b, rest, hcons⟩ := List.exists_cons_of_ne_nil hsome
    obtain ⟨-, j, -, -, -, -, hlist⟩ := hhandlers 0 b (by rw [hcons]; rfl)
    rw [hnone] at hlist
    cases hlist
  · exact hhandlers

end

/-- The parts of an item whose try items all lead to lists. -/
theorem resolvesBy_of_resolvesTo {u : Unresolved} {blocks : List TryBlock} {size : ℕ}
    (hok : resolveTries u.placed 0 u.tries #[] = .ok blocks)
    (hall : List.Forall₂ (ResolvesTo u.placed) u.tries blocks) :
    ResolvesBy u (u.parts.resolve size) := by
  have hmem := mem_offsets_of_resolvesTo hall
  have hnone : ¬ ∃ t ∈ u.tries, t.2.2.toNat ∉ u.offsets := by
    rintro ⟨t, ht, hno⟩
    exact hno (hmem t ht)
  have hsorted := sorted_iff_of_resolvesTo hall
  have htables : resolveTables u.parts.tables = if TryBlock.sorted blocks
      then .ok (blocks, u.lists.map HandlerList.handlers) else .error .triesOrder := by
    show resolveTables (u.tries, u.placed) = _
    rw [resolveTables, ← u.map_placed]
    dsimp only
    rw [hok]
    rfl
  rw [Parts.resolve, htables]
  -- the order of the blocks is all that is left to check
  by_cases hs : TryBlock.sorted blocks = true
  · rw [if_pos hs]
    constructor
    · exact u.nodup_offsets
    · refine iff_of_false ?_ hnone
      rintro ⟨f, herror, -⟩
      cases herror
    · intro f herror
      cases herror
    · exact iff_of_true ⟨_, rfl⟩ ⟨hmem, hsorted.mp hs⟩
    · intro f herror
      cases herror
    · intro c hc
      cases hc
      exact resolved_of_resolvesTo hall rfl rfl
  · rw [if_neg hs]
    constructor
    · exact u.nodup_offsets
    · refine iff_of_false ?_ hnone
      rintro ⟨f, herror, hclass⟩
      cases herror
      cases hclass
    · intro f herror hclass
      cases herror
      cases hclass
    · refine iff_of_false ?_ fun h => hs (hsorted.mpr h.2)
      rintro ⟨c, hc⟩
      cases hc
    · intro f herror
      cases herror
      exact .inr rfl
    · intro c hc
      cases hc

/-- The parts of an item with a try item that leads to no list. -/
theorem resolvesBy_of_error {u : Unresolved} {front back : List (UInt32 × UInt16 × UInt16)}
    {start : UInt32} {count off : UInt16} {size : ℕ}
    (htries : u.tries = front ++ (start, count, off) :: back)
    (hfront : ∀ t ∈ front, u.placed.lookup t.2.2.toNat ≠ none)
    (hnone : u.placed.lookup off.toNat = none)
    (herror : resolveTries u.placed 0 u.tries #[]
      = .error (.handlerOffset front.length off.toNat)) :
    ResolvesBy u (u.parts.resolve size) := by
  have hmem : (start, count, off) ∈ u.tries := by
    rw [htries]
    exact List.mem_append_right _ List.mem_cons_self
  have hno : off.toNat ∉ u.offsets := (u.lookup_placed_eq_none_iff _).mp hnone
  have hbefore : ∀ t ∈ front, t.2.2.toNat ∈ u.offsets := by
    intro t ht
    by_contra habsent
    exact hfront t ht ((u.lookup_placed_eq_none_iff _).mpr habsent)
  have hresult : u.parts.resolve size = .error (.handlerOffset front.length off.toNat) := by
    have htables : resolveTables u.parts.tables
        = .error (.handlerOffset front.length off.toNat) := by
      show resolveTables (u.tries, u.placed) = _
      rw [resolveTables]
      dsimp only
      rw [herror]
      rfl
    rw [Parts.resolve, htables]
    rfl
  rw [hresult]
  constructor
  · exact u.nodup_offsets
  · exact iff_of_true ⟨_, rfl, rfl⟩ ⟨_, hmem, hno⟩
  · intro f hf _
    cases hf
    exact ⟨front, start, count, off, back, htries, hbefore, hno, rfl⟩
  · refine iff_of_false ?_ fun h => hno (h.1 _ hmem)
    rintro ⟨c, hc⟩
    cases hc
  · intro f hf
    cases hf
    exact .inl rfl
  · intro c hc
    cases hc

/-- What becomes of the parts of an item. -/
theorem resolvesBy_resolve (u : Unresolved) (size : ℕ) : ResolvesBy u (u.parts.resolve size) := by
  rcases resolveTries_cases u.placed 0 u.tries #[] with
    ⟨blocks, hok, hall⟩ | ⟨front, start, count, off, back, htries, hfront, hnone, herror⟩
  · exact resolvesBy_of_resolvesTo hok hall
  · rw [Nat.zero_add] at herror
    exact resolvesBy_of_error htries hfront hnone herror

/-! ## Readable bytes -/

/-- A fault of the parts is a fault of the item. -/
theorem parse_of_readParts_error {bytes : List UInt8} {f : Fault}
    (h : readParts ⟨0, bytes⟩ = .error f) : parse bytes = .error f := by
  apply parse_of_read_error
  rw [read_eq_readParts]
  exact bind_of_error h

/-- Bytes that do not start with a form of an item are told so, and others are not. -/
theorem isUnreadable_iff (bytes : List UInt8) :
    (∃ f, parse bytes = .error f ∧ f.IsUnreadable) ↔
      ¬ ∃ (u : Unresolved) (front : List UInt8), u.Form front ∧ front <+: bytes := by
  constructor
  · rintro ⟨f, hparse, hclass⟩ ⟨u, front, hform, rest, rfl⟩
    rw [parse_of_form hform] at hparse
    have hfaults := (resolvesBy_resolve u front.length).faults f hparse
    rw [Fault.IsUnreadable] at hclass
    rcases hfaults with hoffset | horder
    · rw [hoffset] at hclass
      simp at hclass
    · rw [horder] at hclass
      simp at hclass
  · intro hnone
    cases hread : readParts ⟨0, bytes⟩ with
    | error f => exact ⟨f, parse_of_readParts_error hread, faultsIn_readParts _ _ hread⟩
    | ok p =>
      obtain ⟨u, front, hform, -, hpast⟩ := unresolved_of_readParts hread
      exact absurd ⟨u, front, hform, _, hpast.1.symm⟩ hnone

/-- The offset of a try item is resolved exactly. The bytes are unreadable unless they start with a
form of an item; then its handler lists start at distinct offsets, the parse reports the first try
item whose offset is none of these, and else the handlers of a try block are those of the list that
starts at the offset of its item. -/
theorem resolvesBy_of_form (bytes : List UInt8) :
    ((∃ f, parse bytes = .error f ∧ f.IsUnreadable) ↔
      ¬ ∃ (u : Unresolved) (front : List UInt8), u.Form front ∧ front <+: bytes) ∧
    ∀ (u : Unresolved) (front : List UInt8), u.Form front → front <+: bytes →
      ResolvesBy u (parse bytes) := by
  refine ⟨isUnreadable_iff bytes, ?_⟩
  rintro u front hform ⟨rest, rfl⟩
  rw [parse_of_form hform]
  exact resolvesBy_resolve u front.length

/-- Two lists, the first with a typed handler and the second for every exception. The number of the
lists takes two bytes, so they start at the offsets two and five. -/
def pairArea : HandlerArea where
  count := 2
  number := [0x82, 0]
  lists := [⟨[⟨7, 0⟩], none⟩, ⟨[], some 0⟩]
  chunks := [[1, 7, 0], [0, 0]]
  number_form := accepts_uleb128.form_of_eq_ok rfl
  length_lists := rfl
  chunk_forms := by
    have hzero : NumberForm 0 [0] := accepts_uleb128.form_of_eq_ok rfl
    have hpair : HandlerForm ⟨7, 0⟩ [7, 0] := (accepts_readHandler 0).form_of_eq_ok rfl
    have htyped : HandlerList.Form ⟨[⟨7, 0⟩], none⟩ ([1] ++ [[7, 0]].flatten) :=
      .typed rfl (by decide) (by decide) (accepts_sleb128.form_of_eq_ok rfl) (.cons hpair .nil)
    have hall : HandlerList.Form ⟨[], some 0⟩ ([0] ++ ([].flatten ++ [0])) :=
      .catchAll rfl (by decide) (accepts_sleb128.form_of_eq_ok rfl) .nil hzero
    exact .cons htyped (.cons hall .nil)

/-- Two try items in front of these lists, the first one with the given offset. -/
def pairItem (offset : UInt16) : Unresolved where
  registers := 1
  ins := 0
  outs := 0
  tryCount := 2
  debugInfo := 0
  unitCount := 1
  units := [0x000e]
  tries := [(0, 1, offset), (1, 1, 2)]
  area := some pairArea
  length_units := rfl
  length_tries := rfl
  area_isSome := iff_of_true rfl (List.cons_ne_nil _ _)

/-- Two tries that refer to the two lists the other way round, and a reference into the middle of a
list. -/
theorem resolvesBy_of_pairItem :
    (∃ bytes, (pairItem 5).Form bytes ∧ ResolvesBy (pairItem 5) (parse bytes) ∧
      ∃ c, parse bytes = .ok c ∧
        c.tries = [⟨0, 1, [⟨CatchHandler.noIndex, 0⟩]⟩, ⟨1, 1, [⟨7, 0⟩]⟩]) ∧
    ∃ bytes, (pairItem 3).Form bytes ∧ ResolvesBy (pairItem 3) (parse bytes) ∧
      parse bytes = .error (.handlerOffset 0 3) := by
  have hform : ∀ offset, (pairItem offset).Form ((pairItem offset).header ++ (ofUnits [0x000e] ++
      ([0xaa, 0xbb] ++ ([(0, 1, offset), (1, 1, 2)].flatMap tryItemBytes ++ pairArea.bytes)))) :=
    fun offset => ⟨[0xaa, 0xbb], rfl, rfl⟩
  refine ⟨⟨_, hform 5, ?_, _, rfl, rfl⟩, ⟨_, hform 3, ?_, rfl⟩⟩
  · exact (resolvesBy_of_form _).2 _ _ (hform 5) (List.prefix_refl _)
  · exact (resolvesBy_of_form _).2 _ _ (hform 3) (List.prefix_refl _)

end CodeItem
end Dalvik
