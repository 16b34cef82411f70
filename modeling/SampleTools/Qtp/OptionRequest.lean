import Mathlib.Algebra.Ring.Nat
import Mathlib.Data.List.AList
import Mathlib.Data.List.Induction
import SampleTools.Library.Containers
import SampleTools.Library.LittleEndian

/-!
# Options and the option map

An option is a 16-bit id with a payload; on the wire it is a record id, size, payload,
and an option block is such records one after another. A message keeps its options in
a hash map keyed by the id widened to 64 bits. Every write to the map uses the option's
own id as the key, so the map type carries that fact.

## Main definitions

* `idKey`, `idU16`: the two widths of an option id
* `OptionRequest`, `OptionRequest.bytes`, `block`: an option, its record, a block
* `OptionMap`: the map `opts_`, with `set`, `erase`, `get`
* `OptionMap.encodedLen`: the number of bytes the records of a map take

## Main results

* `OptionMap.get_eq_some_iff`: the stored options are what `get` finds
* `OptionMap.get_foldl_set`: after writing a list of options the last one of each id
  stays
-/

namespace SampleTools

open LittleEndian

/-- `OptionId`: the option ids the protocol defines. -/
inductive OptionId
  | reserved
  | sessionId
  | pageInfo
  | subscribeKey
  | serverTime
  | reqId
  | userToken
  | kLinePeriodType
  | extended
  deriving DecidableEq, Repr

namespace OptionId

/-- The enumeration values. -/
def val : OptionId → ℕ
  | reserved => 60000
  | sessionId => 60001
  | pageInfo => 60002
  | subscribeKey => 60003
  | serverTime => 60004
  | reqId => 60005
  | userToken => 600011
  | kLinePeriodType => 600020
  | extended => 61000

/-- The id as `add_option` receives it: converted to `uint16_t`. -/
def toU16 (i : OptionId) : UInt16 := UInt16.ofNat i.val

/-- The id as `get_option` and `remove_option` receive it: converted to `int64_t`. -/
def toI64 (i : OptionId) : Int64 := Int64.ofNat i.val

end OptionId

/-- `OptionRequest`: an option id and a payload block of exactly `option_size` bytes. -/
structure OptionRequest where
  optionId : UInt16
  optionSize : UInt16
  optionBuf : List UInt8
  size_eq : optionBuf.length = optionSize.toNat
  deriving DecidableEq, Repr

/-- The map key of an option id: `uint16_t` widened to `int64_t`. -/
def idKey (id : UInt16) : Int64 := id.toUInt64.toInt64

/-- An integer id passed where a `uint16_t` is expected. -/
def idU16 (id : Int64) : UInt16 := id.toUInt64.toUInt16

theorem idKey_toInt (i : UInt16) : (idKey i).toInt = i.toNat := by
  have h := i.toNat_lt
  rw [idKey, ← Int64.toInt_toBitVec, UInt64.toBitVec_toInt64, BitVec.toInt_eq_toNat_cond]
  simp
  omega

theorem idKey_inj {i j : UInt16} : idKey i = idKey j ↔ i = j := by
  constructor
  · intro h
    have hint := congrArg Int64.toInt h
    rw [idKey_toInt, idKey_toInt] at hint
    exact UInt16.toNat_inj.mp (by omega)
  · rintro rfl
    rfl

/-- The conversion keeps exactly the ids a record can store. -/
theorem idKey_idU16_iff {id : Int64} :
    idKey (idU16 id) = id ↔ 0 ≤ id.toInt ∧ id.toInt ≤ 65535 := by
  constructor
  · intro h
    have hlt := (idU16 id).toNat_lt
    rw [← h, idKey_toInt]
    omega
  · rintro ⟨h0, h1⟩
    apply Int64.toInt_inj.mp
    rw [idKey_toInt]
    have hid : (id.toUInt64.toNat : Int) = id.toInt := by
      have := id.toUInt64.toNat_lt
      have hbits : id.toBitVec.toNat = id.toUInt64.toNat := rfl
      rw [← Int64.toInt_toBitVec, BitVec.toInt_eq_toNat_cond] at h0 h1 ⊢
      split at h0 <;> split <;> omega
    rw [idU16, UInt64.toNat_toUInt16]
    omega

namespace OptionRequest

/-- An option holding a signed 64-bit value, as `add_option(uint16_t, int64_t)` makes it. -/
def ofInt64 (id : UInt16) (v : Int64) : OptionRequest where
  optionId := id
  optionSize := 8
  optionBuf := i64Bytes v
  size_eq := i64Bytes_length v

/-- The record on the wire: id, size, payload. -/
def bytes (r : OptionRequest) : List UInt8 :=
  u16Bytes r.optionId ++ u16Bytes r.optionSize ++ r.optionBuf

/-- What the record takes in the block: the payload and two 16-bit fields. -/
def recordLen (r : OptionRequest) : ℕ := r.optionSize.toNat + 2 * 2

@[simp] theorem bytes_length (r : OptionRequest) : r.bytes.length = r.recordLen := by
  simp only [bytes, List.length_append, u16Bytes_length, r.size_eq, recordLen]
  omega

@[simp] theorem ofInt64_recordLen (id : UInt16) (v : Int64) : (ofInt64 id v).recordLen = 12 := rfl

theorem recordLen_pos (r : OptionRequest) : 0 < r.recordLen := by
  simp [recordLen]

theorem ext_fields {r r' : OptionRequest} (hi : r.optionId = r'.optionId)
    (hb : r.optionBuf = r'.optionBuf) : r = r' := by
  obtain ⟨i, s, b, hs⟩ := r
  obtain ⟨i', s', b', hs'⟩ := r'
  dsimp only at hi hb
  subst hi hb
  have : s = s' := UInt16.toNat_inj.mp (hs.symm.trans hs')
  subst this
  rfl

end OptionRequest

/-- Records one after another. -/
def block (rs : List OptionRequest) : List UInt8 := rs.flatMap OptionRequest.bytes

@[simp] theorem block_nil : block [] = [] := rfl

@[simp] theorem block_cons (r : OptionRequest) (rs : List OptionRequest) :
    block (r :: rs) = r.bytes ++ block rs := rfl

@[simp] theorem block_length (rs : List OptionRequest) :
    (block rs).length = (rs.map OptionRequest.recordLen).sum := by
  induction rs with
  | nil => rfl
  | cons r rs ih => simp [ih]

theorem block_length_of_perm {rs rs' : List OptionRequest} (h : rs.Perm rs') :
    (block rs).length = (block rs').length := by
  rw [block_length, block_length]
  exact (h.map _).sum_nat

/-- A byte string that is a concatenation of whole records. -/
def WellFormedBlock (bs : List UInt8) : Prop := ∃ rs, bs = block rs

theorem WellFormedBlock.cons (r : OptionRequest) {bs : List UInt8} (h : WellFormedBlock bs) :
    WellFormedBlock (r.bytes ++ bs) := by
  obtain ⟨rs, rfl⟩ := h
  exact ⟨r :: rs, rfl⟩

/-! ## The option map -/

/-- `opts_`: the options of a message, each under the key of its own id. -/
structure OptionMap where
  map : AList fun _ : Int64 => OptionRequest
  key_eq : ∀ e ∈ map.entries, e.1 = idKey e.2.optionId

namespace OptionMap

/-- The map of a message without options. -/
def empty : OptionMap := ⟨∅, by simp⟩

/-- `opts_[request->option_id] = request`. -/
def set (m : OptionMap) (r : OptionRequest) : OptionMap where
  map := m.map.insert (idKey r.optionId) r
  key_eq e he := by
    rw [AList.entries_insert, List.mem_cons] at he
    rcases he with rfl | he
    · rfl
    · exact m.key_eq e ((List.kerase_sublist _ _).subset he)

/-- `opts_.erase`, at a key. -/
def erase (m : OptionMap) (k : Int64) : OptionMap where
  map := m.map.erase k
  key_eq e he := m.key_eq e ((List.kerase_sublist _ _).subset he)

/-- The option stored under a key. -/
def get (m : OptionMap) (k : Int64) : Option OptionRequest := m.map.lookup k

/-- The stored options. -/
def requests (m : OptionMap) : List OptionRequest := m.map.entries.map Sigma.snd

/-- The bytes the records of all the options take: what `encode` adds up. -/
def encodedLen (m : OptionMap) : ℕ := (m.requests.map OptionRequest.recordLen).sum

variable {m : OptionMap}

@[simp] theorem get_empty (k : Int64) : empty.get k = none := rfl

@[simp] theorem encodedLen_empty : empty.encodedLen = 0 := rfl

@[simp] theorem get_set_self (r : OptionRequest) : (m.set r).get (idKey r.optionId) = some r :=
  AList.lookup_insert _

theorem get_set_of_ne {r : OptionRequest} {k : Int64} (h : k ≠ idKey r.optionId) :
    (m.set r).get k = m.get k :=
  AList.lookup_insert_ne h

@[simp] theorem get_erase_self (k : Int64) : (m.erase k).get k = none :=
  AList.lookup_erase _ _

theorem get_erase_of_ne {k k' : Int64} (h : k' ≠ k) : (m.erase k).get k' = m.get k' :=
  AList.lookup_erase_ne h

theorem get_eq_some_iff {k : Int64} {r : OptionRequest} :
    m.get k = some r ↔ r ∈ m.requests ∧ idKey r.optionId = k := by
  constructor
  · intro h
    have hmem := AList.mem_lookup_iff.mp h
    exact ⟨List.mem_map.mpr ⟨_, hmem, rfl⟩, (m.key_eq _ hmem).symm⟩
  · rintro ⟨hr, rfl⟩
    obtain ⟨⟨k, r'⟩, hmem, rfl⟩ := List.mem_map.mp hr
    obtain rfl : k = idKey r'.optionId := m.key_eq _ hmem
    exact AList.mem_lookup_iff.mpr hmem

/-- A new id joins the stored options. -/
theorem requests_set_of_get_none {r : OptionRequest} (h : m.get (idKey r.optionId) = none) :
    (m.set r).requests = r :: m.requests := by
  have hentries := AList.entries_insert_of_notMem (b := r) (AList.lookup_eq_none.mp h)
  rw [requests, set, hentries]
  rfl

theorem encodedLen_set_of_get_none {r : OptionRequest} (h : m.get (idKey r.optionId) = none) :
    (m.set r).encodedLen = r.recordLen + m.encodedLen := by
  rw [encodedLen, requests_set_of_get_none h, List.map_cons, List.sum_cons, encodedLen]

/-- No id is stored twice. -/
theorem requests_nodup_keys (m : OptionMap) :
    (m.requests.map fun r => idKey r.optionId).Nodup := by
  have hkeys : m.requests.map (fun r => idKey r.optionId) = m.map.keys := by
    simp only [requests, List.map_map, AList.keys, List.keys]
    exact List.map_congr_left fun e he => (m.key_eq e he).symm
  rw [hkeys]
  exact m.map.keys_nodup

theorem requests_nodup (m : OptionMap) : m.requests.Nodup :=
  List.Nodup.of_map _ m.requests_nodup_keys

theorem mem_requests_iff {r : OptionRequest} :
    r ∈ m.requests ↔ m.get (idKey r.optionId) = some r := by
  rw [get_eq_some_iff, and_iff_left rfl]

/-- What is erased is one of the options, and the others stay. -/
theorem requests_erase_perm {k : Int64} {r : OptionRequest} (h : m.get k = some r) :
    (r :: (m.erase k).requests).Perm m.requests := by
  obtain ⟨hr, rfl⟩ := get_eq_some_iff.mp h
  have hnotMem : r ∉ (m.erase (idKey r.optionId)).requests := by
    rw [mem_requests_iff, get_erase_self]
    exact Option.some_ne_none r ∘ Eq.symm
  refine (List.perm_ext_iff_of_nodup (List.nodup_cons.mpr ⟨hnotMem, requests_nodup _⟩)
    m.requests_nodup).mpr fun r' => ?_
  rw [List.mem_cons, mem_requests_iff, mem_requests_iff]
  by_cases hkey : idKey r'.optionId = idKey r.optionId
  · rw [hkey, get_erase_self, h, Option.some.injEq, eq_comm]
    simp
  · rw [get_erase_of_ne hkey, or_iff_right]
    rintro rfl
    exact hkey rfl

theorem encodedLen_erase {k : Int64} {r : OptionRequest} (h : m.get k = some r) :
    m.encodedLen = r.recordLen + (m.erase k).encodedLen := by
  rw [encodedLen, ← ((requests_erase_perm h).map _).sum_nat, List.map_cons, List.sum_cons,
    encodedLen]

theorem get_foldl_set (rs : List OptionRequest) (k : Int64) :
    (rs.foldl set m).get k =
      (rs.reverse.find? fun r => idKey r.optionId = k).or (m.get k) := by
  induction rs using List.reverseRecOn with
  | nil => simp
  | append_singleton rs r ih =>
    rw [List.foldl_append, List.foldl_cons, List.foldl_nil, List.reverse_append,
      List.reverse_singleton, List.singleton_append, List.find?_cons]
    -- the last write decides, or the writes before it
    by_cases h : idKey r.optionId = k
    · subst h
      simp
    · simp only [h, decide_false]
      rw [get_set_of_ne (Ne.symm h), ih]

/-- Options with pairwise different ids are all found again. -/
theorem get_foldl_set_of_nodup {rs : List OptionRequest}
    (hnd : (rs.map fun r => idKey r.optionId).Nodup) {k : Int64} {r : OptionRequest} :
    (rs.foldl set empty).get k = some r ↔ r ∈ rs ∧ idKey r.optionId = k := by
  rw [get_foldl_set, get_empty, Option.or_none]
  constructor
  · intro h
    exact ⟨List.mem_reverse.mp (List.mem_of_find?_eq_some h), by simpa using List.find?_some h⟩
  · rintro ⟨hr, rfl⟩
    -- some option of this id is found, and there is only one
    cases hfind : rs.reverse.find? fun r' => idKey r'.optionId = idKey r.optionId with
    | none =>
      have := List.find?_eq_none.mp hfind r (List.mem_reverse.mpr hr)
      simp at this
    | some r' =>
      have hr' : r' ∈ rs := List.mem_reverse.mp (List.mem_of_find?_eq_some hfind)
      have hk : idKey r'.optionId = idKey r.optionId := by simpa using List.find?_some hfind
      rw [List.inj_on_of_nodup_map hnd hr' hr hk]

/-- Writing all the options of a map into an empty one, in any order, copies the map. -/
theorem get_foldl_set_order (o : IterOrder OptionRequest) (k : Int64) :
    ((o.order m.requests).foldl set empty).get k = m.get k := by
  have hnd : ((o.order m.requests).map fun r => idKey r.optionId).Nodup :=
    ((o.perm m.requests).map _).nodup_iff.mpr m.requests_nodup_keys
  apply Option.ext
  intro r
  rw [get_foldl_set_of_nodup hnd, get_eq_some_iff, o.mem_order]

theorem block_order_length (o : IterOrder OptionRequest) :
    (block (o.order m.requests)).length = m.encodedLen := by
  rw [block_length_of_perm (o.perm m.requests), block_length, encodedLen]

end OptionMap

end SampleTools
