import Mathlib
import Dalvik.Proofs.Resolution

/-!
# Entries that take every exception

The entry that takes every exception comes last in a handler list whose size is not positive, and is
told from typed entries by the number of its type, `CatchHandler.noIndex`. But the types of typed
entries are read as they are, and that number has forms of its own, so a typed entry can be taken
for one (`isCatchAll_of_typedAll`). Nothing else goes wrong: an entry that counts as one stands
behind the typed entries of its list or has that number (`catchAll_of_parse`).
-/

namespace Dalvik
namespace CodeItem

open Bytes Reader

namespace HandlerList

variable {l : HandlerList}

/-- An entry that counts as taking every exception is the last of the list, and the list says by its
size that it has one. -/
def Unambiguous (l : HandlerList) : Prop :=
  ∀ (j : ℕ) (e : CatchHandler), l.handlers[j]? = some e → e.isCatchAll = true →
    j + 1 = l.handlers.length ∧ l.size ≤ 0

/-- The size of a list tells whether an entry for every exception comes last. -/
theorem Form.size_le_zero_iff {bytes : List UInt8} (h : l.Form bytes) :
    l.size ≤ 0 ↔ ∃ addr, l.catchAll = some addr := by
  cases h with
  | typed hall hpos _ _ _ =>
    refine iff_of_false (by omega) ?_
    rw [hall]
    simp
  | catchAll hall _ _ _ _ =>
    refine iff_of_true ?_ ⟨_, hall⟩
    rw [size, hall]
    dsimp only
    omega

theorem handlers_of_catchAll {addr : UInt32} (h : l.catchAll = some addr) :
    l.handlers = l.typed ++ [⟨CatchHandler.noIndex, addr⟩] := by
  rw [handlers, h]
  rfl

theorem handlers_of_not_catchAll (h : l.catchAll = none) : l.handlers = l.typed := by
  rw [handlers, h]
  exact List.append_nil _

/-- A typed entry keeps its place in the list. -/
theorem getElem?_handlers {j : ℕ} {t : CatchHandler} (h : l.typed[j]? = some t) :
    l.handlers[j]? = some t := by
  rw [handlers, List.getElem?_append_left (List.getElem?_eq_some_iff.mp h).1, h]

/-- The entries that count as taking every exception. -/
theorem Form.isCatchAll_iff {bytes : List UInt8} (hform : l.Form bytes) {j : ℕ} {e : CatchHandler}
    (he : l.handlers[j]? = some e) :
    e.isCatchAll = true ↔ (j = l.typed.length ∧ l.size ≤ 0) ∨
      ∃ t, l.typed[j]? = some t ∧ t.typeIdx = CatchHandler.noIndex := by
  have hentry : e.isCatchAll = true ↔ e.typeIdx = CatchHandler.noIndex := beq_iff_eq
  rw [hentry, hform.size_le_zero_iff]
  cases htyped : l.typed[j]? with
  | some t =>
    -- a typed entry is no other than the one that was read
    rw [getElem?_handlers htyped, Option.some.injEq] at he
    subst he
    have hlt := (List.getElem?_eq_some_iff.mp htyped).1
    simp [hlt.ne]
  | none =>
    -- behind the typed entries there is one entry, if the size says so
    have hge := List.getElem?_eq_none_iff.mp htyped
    cases hall : l.catchAll with
    | none =>
      rw [handlers_of_not_catchAll hall, htyped] at he
      cases he
    | some addr =>
      rw [handlers_of_catchAll hall, List.getElem?_append_right hge,
        List.getElem?_singleton] at he
      split_ifs at he with hj
      cases he
      exact iff_of_true rfl (.inl ⟨by omega, addr, rfl⟩)

/-- A list is unambiguous unless a typed entry has the number that stands for every exception. -/
theorem Form.unambiguous_iff {bytes : List UInt8} (hform : l.Form bytes) :
    l.Unambiguous ↔ ∀ t ∈ l.typed, t.typeIdx ≠ CatchHandler.noIndex := by
  constructor
  · intro hlast t ht hindex
    obtain ⟨j, hj⟩ := List.mem_iff_getElem?.mp ht
    have hlt := (List.getElem?_eq_some_iff.mp hj).1
    obtain ⟨hend, hsize⟩ := hlast j t (getElem?_handlers hj) (beq_iff_eq.mpr hindex)
    obtain ⟨addr, hall⟩ := hform.size_le_zero_iff.mp hsize
    rw [handlers_of_catchAll hall, List.length_append, List.length_singleton] at hend
    omega
  · intro htyped j e he hcatch
    rcases (hform.isCatchAll_iff he).mp hcatch with ⟨rfl, hsize⟩ | ⟨t, ht, hindex⟩
    · obtain ⟨addr, hall⟩ := hform.size_le_zero_iff.mp hsize
      rw [handlers_of_catchAll hall, List.length_append, List.length_singleton]
      exact ⟨rfl, hsize⟩
    · exact absurd hindex (htyped t (List.mem_of_getElem? ht))

end HandlerList

/-- The lists of an item have forms. -/
theorem Unresolved.exists_form {u : Unresolved} {l : HandlerList} (h : l ∈ u.lists) :
    ∃ bytes, l.Form bytes := by
  rw [lists] at h
  cases harea : u.area with
  | none =>
    rw [harea] at h
    cases h
  | some a =>
    rw [harea] at h
    obtain ⟨j, hj, rfl⟩ := List.mem_iff_getElem.mp h
    exact ⟨_, a.chunk_forms.get hj (by rwa [← a.chunk_forms.length_eq])⟩

/-- Where an item is read, an entry counts as taking every exception if and only if it stands behind
the typed entries of a list whose size is not positive, or is a typed entry whose type has the
number `noIndex` modulo 2^32. A list is unambiguous exactly if it has no typed entry of that
kind. -/
theorem catchAll_of_parse {bytes : List UInt8} {c : CodeItem} (h : parse bytes = .ok c) :
    ∃ (u : Unresolved) (front : List UInt8), u.Form front ∧ front <+: bytes ∧
      c.handlerLists = u.lists.map HandlerList.handlers ∧
      ∀ l ∈ u.lists,
        (∀ (j : ℕ) (e : CatchHandler), l.handlers[j]? = some e → (e.isCatchAll = true ↔
          (j = l.typed.length ∧ l.size ≤ 0) ∨
            ∃ t, l.typed[j]? = some t ∧ t.typeIdx = CatchHandler.noIndex)) ∧
        (l.Unambiguous ↔ ∀ t ∈ l.typed, t.typeIdx ≠ CatchHandler.noIndex) := by
  have hreadable : ∃ (u : Unresolved) (front : List UInt8), u.Form front ∧ front <+: bytes := by
    by_contra hnone
    obtain ⟨f, hfault, -⟩ := (isUnreadable_iff bytes).mpr hnone
    rw [h] at hfault
    cases hfault
  obtain ⟨u, front, hform, rest, rfl⟩ := hreadable
  rw [parse_of_form hform] at h
  refine ⟨u, front, hform, List.prefix_append _ _,
    ((resolvesBy_resolve u front.length).resolved c h).lists, fun l hl => ?_⟩
  obtain ⟨chunk, hchunk⟩ := u.exists_form hl
  exact ⟨fun j e he => hchunk.isCatchAll_iff he, hchunk.unambiguous_iff⟩

/-- One try item with a list of size two. The type of the first entry has the number 2^32 - 1. -/
def typedAll : List UInt8 :=
  [1, 0, 0, 0, 0, 0, 1, 0, 0, 0, 0, 0, 1, 0, 0, 0, 0x0e, 0, 0, 0, 0, 0, 0, 0, 1, 0, 1, 0,
    1, 2, 0xff, 0xff, 0xff, 0xff, 0x0f, 0, 7, 0]

theorem catchAll_of_typedAll :
    ∃ c, parse typedAll = .ok c ∧ ∃ (u : Unresolved) (front : List UInt8), u.Form front ∧
      front <+: typedAll ∧ c.handlerLists = u.lists.map HandlerList.handlers ∧
      ∀ l ∈ u.lists,
        (∀ (j : ℕ) (e : CatchHandler), l.handlers[j]? = some e → (e.isCatchAll = true ↔
          (j = l.typed.length ∧ l.size ≤ 0) ∨
            ∃ t, l.typed[j]? = some t ∧ t.typeIdx = CatchHandler.noIndex)) ∧
        (l.Unambiguous ↔ ∀ t ∈ l.typed, t.typeIdx ≠ CatchHandler.noIndex) :=
  ⟨_, rfl, catchAll_of_parse rfl⟩

/-- The list of `typedAll`, both of whose entries are typed. -/
def typedAllArea : HandlerArea where
  count := 1
  number := [1]
  lists := [⟨[⟨0xffffffff, 0⟩, ⟨7, 0⟩], none⟩]
  chunks := [[2, 0xff, 0xff, 0xff, 0xff, 0x0f, 0, 7, 0]]
  number_form := accepts_uleb128.form_of_eq_ok rfl
  length_lists := rfl
  chunk_forms := by
    have hfirst : HandlerForm ⟨0xffffffff, 0⟩ [0xff, 0xff, 0xff, 0xff, 0x0f, 0] :=
      (accepts_readHandler 0).form_of_eq_ok rfl
    have hsecond : HandlerForm ⟨7, 0⟩ [7, 0] := (accepts_readHandler 0).form_of_eq_ok rfl
    have hlist : HandlerList.Form ⟨[⟨0xffffffff, 0⟩, ⟨7, 0⟩], none⟩
        ([2] ++ [[0xff, 0xff, 0xff, 0xff, 0x0f, 0], [7, 0]].flatten) :=
      .typed rfl (by decide) (by decide) (accepts_sleb128.form_of_eq_ok rfl)
        (.cons hfirst (.cons hsecond .nil))
    exact .cons hlist .nil

def typedAllItem : Unresolved :=
  { pairItem 1 with
    tryCount := 1
    tries := [(0, 1, 1)]
    area := some typedAllArea
    length_tries := rfl
    area_isSome := iff_of_true rfl (List.cons_ne_nil _ _) }

/-- The first of two typed entries of a list of size two is taken for one that takes every
exception. -/
theorem isCatchAll_of_typedAll :
    typedAllItem.Form typedAll ∧ (∃ c, parse typedAll = .ok c ∧
      c.handlerLists = typedAllItem.lists.map HandlerList.handlers) ∧
    ∃ l ∈ typedAllItem.lists, l.size = 2 ∧ ∃ e, l.handlers[0]? = some e ∧ e ∈ l.typed ∧
      l.handlers.length = 2 ∧ e.isCatchAll = true :=
  ⟨⟨[0, 0], rfl, rfl⟩, ⟨_, rfl, rfl⟩, _, List.mem_singleton.mpr rfl, rfl, _, rfl,
    List.mem_cons_self, rfl, rfl⟩

end CodeItem
end Dalvik
