import Mathlib
import Dalvik.Proofs.VerdictStore

/-!
# The store as a map

A store answers by what was written last. `Request` lists what can be done to an open store,
`latest` says what the last of them left under a key, and `recorded_replay` follows a store through
all requests: under every key it holds the bytes for what is left there. From this come the answers
of `get` and `count` after any history (`keepsHistory_replay`).

Below the store is a database with byte strings as keys. A digest has the key `recordKey`, a marker
in front of its bytes, and keys are counted by their marker. `Database` is that map.
-/

namespace Dalvik

open Json.Decoder (FitsInt64)

namespace VerdictStore

/-! ## Requests -/

/-- What is asked of an open store. -/
inductive Request where
  | get (key : Digest)
  | count
  | put (key : Digest) (v : Verdict)
  | write (key : Digest) (bytes : List UInt8)
  | delete (key : Digest)

/-- The store after a request. -/
def apply (s : VerdictStore) : Request → Except StoreFault VerdictStore
  | .get _ => .ok s
  | .count => .ok s
  | .put key v => s.put key v
  | .write key bytes => s.putBytes key bytes
  | .delete key => s.delete key

/-- An empty store after a series of requests, the first one first. -/
def replay (requests : List Request) : Except StoreFault VerdictStore :=
  requests.foldlM apply {}

/-- What stands under a key. -/
inductive Content where
  | absent
  | verdict (v : Verdict)
  | raw (bytes : List UInt8)

/-- The bytes that are kept for a content. -/
def Content.bytes? : Content → Option (List UInt8)
  | absent => none
  | verdict v => some { v with version := Verdict.currentVersion }.encode
  | raw bytes => some bytes

/-- Only what is absent leaves no bytes. -/
theorem Content.bytes?_eq_none_iff {c : Content} : c.bytes? = none ↔ c = .absent := by
  cases c <;> simp [bytes?]

/-- What a request leaves under `key`, if it writes there at all. -/
def Request.leaves? (key : Digest) : Request → Option Content
  | get _ => none
  | count => none
  | put k v => if key = k then some (.verdict v) else none
  | write k bytes => if key = k then some (.raw bytes) else none
  | delete k => if key = k then some .absent else none

/-- Everything that the requests leave under `key`, in order. -/
def writes (requests : List Request) (key : Digest) : List Content :=
  requests.filterMap (·.leaves? key)

/-- What the requests have left under `key` in the end. -/
def latest (requests : List Request) (key : Digest) : Content :=
  (writes requests key).getLast?.getD .absent

/-- The last request decides what is left under its key, and the requests before decide about the
others. -/
theorem latest_append (requests : List Request) (r : Request) (key : Digest) :
    latest (requests ++ [r]) key = (r.leaves? key).getD (latest requests key) := by
  rw [latest, writes, List.filterMap_append]
  cases hr : r.leaves? key with
  | none =>
    rw [List.filterMap_cons_none hr, List.filterMap_nil, List.append_nil]
    rfl
  | some c =>
    rw [List.filterMap_cons_some hr, List.filterMap_nil, List.getLast?_concat]
    rfl

/-! ## Stores that follow their requests -/

/-- An open store holds under every key, once, the bytes for what the requests have left there. -/
structure Recorded (requests : List Request) (s : VerdictStore) : Prop where
  isOpen : s.isOpen = true
  bytes : ∀ key, s.bytes? key = (latest requests key).bytes?
  nodup : (s.records.map (·.1)).Nodup

/-- A key without bytes stands in no record. -/
theorem bytes?_eq_none_iff (s : VerdictStore) (key : Digest) :
    s.bytes? key = none ↔ key ∉ s.records.map (·.1) := by
  rw [bytes?, List.lookup_eq_none_iff, List.mem_map]
  constructor
  · rintro h ⟨r, hr, rfl⟩
    exact bne_iff_ne.mp (h r hr) rfl
  · intro h r hr
    exact bne_iff_ne.mpr fun heq => h ⟨r, hr, heq.symm⟩

/-- A record that is taken out is gone. -/
theorem key_not_mem_without (s : VerdictStore) (key : Digest) :
    key ∉ (s.without key).records.map (·.1) := by
  rw [List.mem_map]
  rintro ⟨r, hr, heq⟩
  rw [without, List.mem_filter, decide_eq_true_eq] at hr
  exact hr.2 heq

/-- Taking a record out leaves the other keys alone. -/
theorem bytes?_without (s : VerdictStore) (key k : Digest) :
    (s.without key).bytes? k = if k = key then none else s.bytes? k := by
  split
  · rename_i hk
    rw [bytes?_eq_none_iff, hk]
    exact key_not_mem_without s key
  · rename_i hk
    exact lookup_filter_ne hk s.records

/-- Taking a record out keeps the keys distinct. -/
theorem nodup_without {s : VerdictStore} (h : (s.records.map (·.1)).Nodup) (key : Digest) :
    ((s.without key).records.map (·.1)).Nodup :=
  (List.Sublist.map _ List.filter_sublist).nodup h

/-- Bytes that are written under a key stand there, and the other keys keep theirs. -/
theorem putBytes_spec {s : VerdictStore} (hopen : s.isOpen = true)
    (hnodup : (s.records.map (·.1)).Nodup) (key : Digest) (bytes : List UInt8) :
    ∃ s', s.putBytes key bytes = .ok s' ∧ s'.isOpen = true ∧ (s'.records.map (·.1)).Nodup ∧
      ∀ k, s'.bytes? k = if k = key then some bytes else s.bytes? k := by
  refine ⟨_, if_pos hopen, hopen, ?_, ?_⟩
  · rw [List.map_cons, List.nodup_cons]
    exact ⟨key_not_mem_without s key, nodup_without hnodup key⟩
  · intro k
    have hrest := bytes?_without s key k
    rw [bytes?, List.lookup_cons]
    split
    · rename_i hk
      rw [if_pos (beq_iff_eq.mp hk)]
    · rename_i hk
      rw [if_neg (by simpa using hk)] at hrest ⊢
      exact hrest

/-- An open store serves every request: it holds what the request leaves under its key, and what it
has held before under the others. -/
theorem apply_spec {s : VerdictStore} (hopen : s.isOpen = true)
    (hnodup : (s.records.map (·.1)).Nodup) (r : Request) :
    ∃ s', s.apply r = .ok s' ∧ s'.isOpen = true ∧ (s'.records.map (·.1)).Nodup ∧
      ∀ k, s'.bytes? k = (r.leaves? k).elim (s.bytes? k) Content.bytes? := by
  cases r with
  | get key => exact ⟨s, rfl, hopen, hnodup, fun _ => rfl⟩
  | count => exact ⟨s, rfl, hopen, hnodup, fun _ => rfl⟩
  | put key v =>
    obtain ⟨s', hput, hopen', hnodup', hbytes⟩ := putBytes_spec hopen hnodup key
      { v with version := Verdict.currentVersion }.encode
    refine ⟨s', by rw [apply, put, hput], hopen', hnodup', fun k => ?_⟩
    rw [hbytes, Request.leaves?]
    split <;> rfl
  | write key bytes =>
    obtain ⟨s', hput, hopen', hnodup', hbytes⟩ := putBytes_spec hopen hnodup key bytes
    refine ⟨s', hput, hopen', hnodup', fun k => ?_⟩
    rw [hbytes, Request.leaves?]
    split <;> rfl
  | delete key =>
    refine ⟨s.without key, if_pos hopen, hopen, nodup_without hnodup key, fun k => ?_⟩
    rw [bytes?_without, Request.leaves?]
    split <;> rfl

/-- A request is carried out, and the store records what it leaves. -/
theorem Recorded.step {requests : List Request} {s : VerdictStore} (h : Recorded requests s)
    (r : Request) : ∃ s', s.apply r = .ok s' ∧ Recorded (requests ++ [r]) s' := by
  obtain ⟨s', happly, hopen, hnodup, hbytes⟩ := apply_spec h.isOpen h.nodup r
  refine ⟨s', happly, hopen, fun key => ?_, hnodup⟩
  rw [hbytes, latest_append, h.bytes]
  cases r.leaves? key <;> rfl

/-- All requests are served, and the store follows them. -/
theorem recorded_replay (requests : List Request) :
    ∃ s, replay requests = .ok s ∧ Recorded requests s := by
  induction requests using List.reverseRecOn with
  | nil => exact ⟨{}, rfl, rfl, fun _ => rfl, List.nodup_nil⟩
  | append_singleton requests r ih =>
    obtain ⟨s, hreplay, hs⟩ := ih
    obtain ⟨s', happly, hs'⟩ := hs.step r
    refine ⟨s', ?_, hs'⟩
    rw [replay, List.foldlM_append, ← replay, hreplay]
    change List.foldlM apply s [r] = _
    rw [List.foldlM_cons, happly]
    rfl

/-! ## Answers -/

namespace Recorded

variable {requests : List Request} {s : VerdictStore}

/-- A read gives the bytes of the latest content. -/
theorem getBytes_eq (h : Recorded requests s) (key : Digest) :
    s.getBytes key = (latest requests key).bytes?.elim (.error .notFound) .ok := by
  rw [getBytes, if_pos h.isOpen, h.bytes key]
  cases (latest requests key).bytes? <;> rfl

/-- The keys of the records are those under which something is left. -/
theorem mem_keys_iff (h : Recorded requests s) (key : Digest) :
    key ∈ s.records.map (·.1) ↔ latest requests key ≠ .absent := by
  rw [ne_eq, ← Content.bytes?_eq_none_iff, ← h.bytes, bytes?_eq_none_iff, not_not]

/-- The count is that of the keys under which something is left. -/
theorem count_eq (h : Recorded requests s) :
    ∃ n, s.count = .ok n ∧ {key | latest requests key ≠ .absent}.encard = n := by
  refine ⟨s.records.length, if_pos h.isOpen, ?_⟩
  -- no key stands in two records, so the records are as many as the keys
  have hset : {key | latest requests key ≠ .absent} = ↑(s.records.map (·.1)).toFinset := by
    ext key
    rw [Finset.mem_coe, List.mem_toFinset, h.mem_keys_iff]
    rfl
  rw [hset, Set.encard_coe_eq_coe_finsetCard, List.toFinset_card_of_nodup h.nodup, List.length_map]

/-- Where nothing is left, a look-up finds nothing. -/
theorem get_absent (h : Recorded requests s) {key : Digest}
    (hlatest : latest requests key = .absent) : (s.get key).1 = .ok none := by
  rw [get, h.getBytes_eq, hlatest]
  rfl

/-- A verdict that was put is found again in the current version. -/
theorem get_verdict (h : Recorded requests s) {key : Digest} {v : Verdict}
    (hlatest : latest requests key = .verdict v) (hinsns : FitsInt64 v.insns)
    (hnew : FitsInt64 v.newInstances) :
    (s.get key).1 = .ok (some { v with version := Verdict.currentVersion }) := by
  have hbytes := h.getBytes_eq key
  rw [hlatest] at hbytes
  exact get_of_encode hbytes ⟨fits_currentVersion, hinsns, hnew⟩ rfl

/-- Raw bytes are found as far as they can be decoded. -/
theorem get_raw (h : Recorded requests s) {key : Digest} {bytes : List UInt8}
    (hlatest : latest requests key = .raw bytes) :
    (s.get key).1 = match Verdict.decode bytes with
      | .error fault => .error (.undecodable key fault)
      | .ok v => .ok (if v.version = Verdict.currentVersion then some v else none) := by
  rw [get, h.getBytes_eq, hlatest]
  simp only [Content.bytes?, Option.elim]
  cases Verdict.decode bytes with
  | error fault => rfl
  | ok v =>
    simp only [ne_eq, ite_not]
    split <;> rfl

end Recorded

/-- No verdict of another version is found. -/
theorem version_of_get {s : VerdictStore} {key : Digest} {v : Verdict}
    (h : (s.get key).1 = .ok (some v)) : v.version = Verdict.currentVersion := by
  rw [get] at h
  split at h
  · cases h
  · cases h
  · split at h
    · cases h
    · rename_i v' _
      by_cases hversion : v'.version ≠ Verdict.currentVersion
      · rw [if_pos hversion] at h
        cases h
      · rw [if_neg hversion] at h
        cases h
        exact not_not.mp hversion

/-! ## The database -/

/-- The key of a digest in the database. -/
def recordKey (key : Digest) : List UInt8 := Bytes.Utf8.encode "vfy/" ++ key.bytes

/-- Different digests have different keys. -/
theorem recordKey_injective : Function.Injective recordKey := by
  intro key key' h
  have hbytes := List.append_cancel_left h
  cases key
  cases key'
  cases hbytes
  rfl

/-- A map from byte strings to byte strings. -/
abbrev Database := List UInt8 → Option (List UInt8)

namespace Database

/-- The database after a request to the store above it. -/
def step (db : Database) : Request → Database
  | .get _ => db
  | .count => db
  | .put key v =>
    Function.update db (recordKey key) (some { v with version := Verdict.currentVersion }.encode)
  | .write key bytes => Function.update db (recordKey key) (some bytes)
  | .delete key => Function.update db (recordKey key) none

/-- An empty database after a series of requests. -/
def replay (requests : List Request) : Database := requests.foldl step fun _ => none

/-- A request changes what is under the key of its digest. -/
theorem step_recordKey (db : Database) (r : Request) (key : Digest) :
    db.step r (recordKey key) = (r.leaves? key).elim (db (recordKey key)) Content.bytes? := by
  cases r with
  | get k => rfl
  | count => rfl
  | put k v | write k bytes | delete k =>
    rw [step, Request.leaves?, Function.update_apply]
    simp only [recordKey_injective.eq_iff]
    split <;> rfl

/-- Under the key of a digest is what the requests have left there. -/
theorem replay_recordKey (requests : List Request) (key : Digest) :
    replay requests (recordKey key) = (latest requests key).bytes? := by
  induction requests using List.reverseRecOn with
  | nil => rfl
  | append_singleton requests r ih =>
    rw [replay, List.foldl_append, List.foldl_cons, List.foldl_nil, ← replay, step_recordKey, ih,
      latest_append]
    cases r.leaves? key <;> rfl

/-- Nothing is under any other key. -/
theorem exists_recordKey {requests : List Request} {k : List UInt8}
    (h : replay requests k ≠ none) : ∃ key, k = recordKey key := by
  induction requests using List.reverseRecOn with
  | nil => exact absurd rfl h
  | append_singleton requests r ih =>
    rw [replay, List.foldl_append, List.foldl_cons, List.foldl_nil, ← replay] at h
    cases r with
    | get key => exact ih h
    | count => exact ih h
    | put key v | write key bytes | delete key =>
      rw [step, Function.update_apply] at h
      split at h
      · exact ⟨key, by assumption⟩
      · exact ih h

/-- The keys with the marker in front are those of the digests under which something is left. -/
theorem marked_keys (requests : List Request) :
    {k | Bytes.Utf8.encode "vfy/" <+: k ∧ replay requests k ≠ none}
      = recordKey '' {key | latest requests key ≠ .absent} := by
  ext k
  constructor
  · rintro ⟨-, hk⟩
    obtain ⟨key, rfl⟩ := exists_recordKey hk
    rw [replay_recordKey, ne_eq, Content.bytes?_eq_none_iff] at hk
    exact ⟨key, hk, rfl⟩
  · rintro ⟨key, hkey, rfl⟩
    refine ⟨List.prefix_append _ _, ?_⟩
    rw [replay_recordKey, ne_eq, Content.bytes?_eq_none_iff]
    exact hkey

end Database

/-! ## Histories -/

/-- The store answers by its history of requests. -/
structure KeepsHistory (requests : List Request) (s : VerdictStore) : Prop where
  /-- Nothing is found under a key that was never written or was deleted last. -/
  absent : ∀ key, latest requests key = .absent → (s.get key).1 = .ok none
  /-- A verdict that was put last is found, stamped with the current version. -/
  verdict : ∀ key v, latest requests key = .verdict v → FitsInt64 v.insns →
    FitsInt64 v.newInstances →
      (s.get key).1 = .ok (some { v with version := Verdict.currentVersion })
  /-- Bytes that were written last are read; a verdict of another version counts as absent. -/
  raw : ∀ key bytes, latest requests key = .raw bytes →
    (s.get key).1 = match Verdict.decode bytes with
      | .error fault => .error (.undecodable key fault)
      | .ok v => .ok (if v.version = Verdict.currentVersion then some v else none)
  /-- No verdict of another version is found, whatever was written. -/
  version : ∀ key v, (s.get key).1 = .ok (some v) → v.version = Verdict.currentVersion
  /-- Only what was written under the key matters to the answer. -/
  other_keys : ∀ key requests' s', replay requests' = .ok s' →
    writes requests' key = writes requests key → s'.get key = s.get key
  /-- The keys under which something is left are counted, whether it can be read or not. -/
  count : ∃ n, s.count = .ok n ∧ {key | latest requests key ≠ .absent}.encard = n ∧
    {k | Bytes.Utf8.encode "vfy/" <+: k ∧ Database.replay requests k ≠ none}.encard = n
  /-- The bytes under a key are those in the database. -/
  database : ∀ key, s.bytes? key = Database.replay requests (recordKey key)

/-- Every series of requests to an empty store is served, and the store answers by it. -/
theorem keepsHistory_replay (requests : List Request) :
    ∃ s, replay requests = .ok s ∧ KeepsHistory requests s := by
  obtain ⟨s, hreplay, hs⟩ := recorded_replay requests
  refine ⟨s, hreplay, ?_⟩
  constructor
  · exact fun key hlatest => hs.get_absent hlatest
  · exact fun key v hlatest hinsns hnew => hs.get_verdict hlatest hinsns hnew
  · exact fun key bytes hlatest => hs.get_raw hlatest
  · exact fun key v hget => version_of_get hget
  · intro key requests' s' hreplay' hwrites
    obtain ⟨s'', hreplay'', hs'⟩ := recorded_replay requests'
    rw [hreplay'] at hreplay''
    cases hreplay''
    -- the same writes leave the same content, and a look-up sees nothing else
    apply get_congr
    rw [hs'.getBytes_eq, hs.getBytes_eq, latest, hwrites, ← latest]
  · obtain ⟨n, hcount, hcard⟩ := hs.count_eq
    refine ⟨n, hcount, hcard, ?_⟩
    rw [Database.marked_keys, recordKey_injective.encard_image, hcard]
  · intro key
    rw [hs.bytes, Database.replay_recordKey]

end VerdictStore

end Dalvik
