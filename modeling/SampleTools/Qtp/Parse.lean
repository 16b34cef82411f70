import SampleTools.Library.Memory
import SampleTools.Qtp.OptionRequest

/-!
# Parsing an option block

`parse_options` walks the option buffer record by record until its offset reaches the
length of the block. Nothing is checked on the way: each record's size is taken from
the buffer and its payload is copied at once. The loop below is that walk over a block
of memory, together with the reads it makes; what a read past the block finds is given
by `past`.

## Main definitions

* `recordAt`: the option one round builds
* `parseLoop`: the loop of `parse_options`, from an offset on

## Main results

* `parseLoop_block`: on a concatenation of records, the loop stores exactly these
* `parseLoop_within_iff`: the loop stays inside the block exactly when the block is a
  concatenation of records
* `parseLoop_rounds`: the loop ends after at most a quarter of the block's length rounds
-/

namespace SampleTools

open LittleEndian Memory

variable (past : ℕ → UInt8) (buf : List UInt8)

/-- `OptionRequest(opt->option_id, opt->option_size, opt_buf_ + offset + 4)`. -/
def recordAt (offset : ℕ) : OptionRequest where
  optionId := u16Of (peekN past buf offset 2)
  optionSize := u16Of (peekN past buf (offset + 2) 2)
  optionBuf := peekN past buf (offset + 2 * 2) (u16Of (peekN past buf (offset + 2) 2)).toNat
  size_eq := peekN_length _ _ _ _

/-- The reads of one round: the two fields and the payload. -/
def recordReads (offset : ℕ) : List Access :=
  [⟨offset, 2⟩, ⟨offset + 2, 2⟩, ⟨offset + 2 * 2, (recordAt past buf offset).optionSize.toNat⟩]

/-- The loop of `parse_options` from `offset` on, with the reads it makes. -/
def parseLoop (optLen offset : ℕ) (opts : OptionMap) : OptionMap × List Access :=
  if offset < optLen then
    -- the payload is copied at once, wherever it ends
    let request := recordAt past buf offset
    let next := parseLoop optLen (offset + 2 * 2 + request.optionSize.toNat) (opts.set request)
    (next.1, recordReads past buf offset ++ next.2)
  else (opts, [])
termination_by optLen - offset

variable {past buf}

theorem parseLoop_of_lt {optLen offset : ℕ} (h : offset < optLen) (opts : OptionMap) :
    parseLoop past buf optLen offset opts =
      let next := parseLoop past buf optLen (offset + (recordAt past buf offset).recordLen)
        (opts.set (recordAt past buf offset))
      (next.1, recordReads past buf offset ++ next.2) := by
  rw [parseLoop, if_pos h]
  simp only [OptionRequest.recordLen, Nat.add_assoc, Nat.add_comm]

theorem parseLoop_of_le {optLen offset : ℕ} (h : optLen ≤ offset) (opts : OptionMap) :
    parseLoop past buf optLen offset opts = (opts, []) := by
  rw [parseLoop, if_neg (Nat.not_lt.mpr h)]

/-- What the loop finds in the block comes before what the map held. -/
theorem get_parseLoop (optLen offset : ℕ) (opts : OptionMap) (k : Int64) :
    (parseLoop past buf optLen offset opts).1.get k =
      ((parseLoop past buf optLen offset .empty).1.get k).or (opts.get k) := by
  induction hk : optLen - offset using Nat.strongRecOn generalizing offset opts with
  | _ n ih =>
    by_cases hlt : offset < optLen
    · have hpos := (recordAt past buf offset).recordLen_pos
      have hnext := fun opts' => ih (optLen - (offset + (recordAt past buf offset).recordLen))
        (by omega) _ opts' rfl
      rw [parseLoop_of_lt hlt, parseLoop_of_lt hlt]
      dsimp only
      rw [hnext (opts.set _), hnext (OptionMap.empty.set _), Option.or_assoc]
      -- the first record is in the map before what follows is parsed
      by_cases hkey : k = idKey (recordAt past buf offset).optionId
      · rw [hkey, OptionMap.get_set_self, OptionMap.get_set_self]
        rfl
      · rw [OptionMap.get_set_of_ne hkey, OptionMap.get_set_of_ne hkey, OptionMap.get_empty,
          Option.none_or]
    · rw [parseLoop_of_le (Nat.le_of_not_lt hlt), parseLoop_of_le (Nat.le_of_not_lt hlt)]
      exact (Option.none_or).symm

/-- A block with any bytes has a first record. -/
theorem exists_get_parseLoop {optLen : ℕ} (h : 0 < optLen) :
    ∃ k, (parseLoop past buf optLen 0 .empty).1.get k ≠ none := by
  refine ⟨idKey (recordAt past buf 0).optionId, ?_⟩
  rw [parseLoop_of_lt h]
  dsimp only
  rw [get_parseLoop, OptionMap.get_set_self]
  simp

/-! ## Well-formed blocks -/

theorem recordAt_append (pre : List UInt8) (r : OptionRequest) (post : List UInt8) :
    recordAt past (pre ++ r.bytes ++ post) pre.length = r := by
  have hid : peekN past (pre ++ r.bytes ++ post) pre.length 2 = u16Bytes r.optionId := by
    have := peekN_append past pre (u16Bytes r.optionId)
      (u16Bytes r.optionSize ++ r.optionBuf ++ post)
    simpa [OptionRequest.bytes] using this
  have hsize : peekN past (pre ++ r.bytes ++ post) (pre.length + 2) 2 =
      u16Bytes r.optionSize := by
    have := peekN_append past (pre ++ u16Bytes r.optionId) (u16Bytes r.optionSize)
      (r.optionBuf ++ post)
    simpa [OptionRequest.bytes] using this
  have hbuf : peekN past (pre ++ r.bytes ++ post) (pre.length + 2 * 2) r.optionSize.toNat =
      r.optionBuf := by
    have := peekN_append past (pre ++ u16Bytes r.optionId ++ u16Bytes r.optionSize)
      r.optionBuf post
    simpa [OptionRequest.bytes, r.size_eq, Nat.add_assoc] using this
  apply OptionRequest.ext_fields
  · simp only [recordAt, hid, u16Of_u16Bytes]
  · simp only [recordAt, hsize, u16Of_u16Bytes, hbuf]

theorem recordReads_within {pre post : List UInt8} {r : OptionRequest} {n : ℕ}
    (hn : pre.length + r.recordLen ≤ n) :
    ∀ a ∈ recordReads past (pre ++ r.bytes ++ post) pre.length, a.Within n := by
  rw [recordReads, recordAt_append]
  simp only [OptionRequest.recordLen] at hn
  intro a ha
  simp only [List.mem_cons, List.not_mem_nil, or_false] at ha
  rcases ha with rfl | rfl | rfl
  all_goals
    simp only [Access.Within]
    omega

theorem parseLoop_block (pre : List UInt8) (rs : List OptionRequest) (post : List UInt8)
    (opts : OptionMap) :
    (parseLoop past (pre ++ block rs ++ post) (pre ++ block rs).length pre.length opts).1 =
        rs.foldl OptionMap.set opts ∧
      ∀ a ∈ (parseLoop past (pre ++ block rs ++ post) (pre ++ block rs).length pre.length
        opts).2, a.Within (pre ++ block rs).length := by
  induction rs generalizing pre opts with
  | nil =>
    rw [parseLoop_of_le (by simp)]
    simp
  | cons r rs ih =>
    -- the round at the end of `pre` reads `r`; the next one starts behind it
    have hlt : pre.length < (pre ++ block (r :: rs)).length := by
      have := r.recordLen_pos
      simp only [block_cons, List.length_append, OptionRequest.bytes_length]
      omega
    have hbuf : pre ++ block (r :: rs) ++ post = pre ++ r.bytes ++ (block rs ++ post) := by
      simp
    have hrec : recordAt past (pre ++ block (r :: rs) ++ post) pre.length = r := by
      rw [hbuf, recordAt_append]
    have hpre : pre ++ block (r :: rs) = (pre ++ r.bytes) ++ block rs := by simp
    have hoff : pre.length + r.recordLen = (pre ++ r.bytes).length := by simp
    rw [parseLoop_of_lt hlt, hrec, hoff, hpre]
    obtain ⟨hopts, hreads⟩ := ih (pre ++ r.bytes) (opts.set r)
    refine ⟨hopts, ?_⟩
    intro a ha
    rcases List.mem_append.mp ha with ha | ha
    · rw [← hpre, hbuf] at ha
      exact recordReads_within (by simp) a ha
    · exact hreads a ha

/-! ## Where the loop leaves the block -/

/-- A round that reads inside the block reads one whole record. -/
theorem recordAt_bytes {offset : ℕ}
    (h : offset + (recordAt past buf offset).recordLen ≤ buf.length) :
    (recordAt past buf offset).bytes =
      (buf.drop offset).take (recordAt past buf offset).recordLen := by
  have hlen : (recordAt past buf offset).recordLen =
      2 + 2 + (u16Of (peekN past buf (offset + 2) 2)).toNat := by
    simp [OptionRequest.recordLen, recordAt, Nat.add_comm]
  rw [hlen] at h ⊢
  rw [List.take_add, List.take_add, List.drop_drop, List.drop_drop, OptionRequest.bytes]
  simp only [recordAt]
  rw [u16Bytes_u16Of (by simp), u16Bytes_u16Of (by simp),
    peekN_eq_take_drop (show offset + 2 * 2 +
      (u16Of (peekN past buf (offset + 2) 2)).toNat ≤ buf.length by omega),
    peekN_eq_take_drop (show offset + 2 ≤ buf.length by omega),
    peekN_eq_take_drop (show offset + 2 + 2 ≤ buf.length by omega)]

theorem wellFormed_of_within (offset : ℕ) (opts : OptionMap) (hoff : offset ≤ buf.length)
    (h : ∀ a ∈ (parseLoop past buf buf.length offset opts).2, a.Within buf.length) :
    WellFormedBlock (buf.drop offset) := by
  induction hk : buf.length - offset using Nat.strongRecOn generalizing offset opts with
  | _ k ih =>
    rcases Nat.eq_or_lt_of_le hoff with rfl | hlt
    · exact ⟨[], by simp⟩
    · rw [parseLoop_of_lt hlt] at h
      -- the payload is the last read of the round, and it ends inside
      have hin : offset + (recordAt past buf offset).recordLen ≤ buf.length := by
        have := h ⟨offset + 2 * 2, (recordAt past buf offset).optionSize.toNat⟩
          (List.mem_append_left _ (by simp [recordReads]))
        simp only [Access.Within] at this
        simp only [OptionRequest.recordLen]
        omega
      have hpos := (recordAt past buf offset).recordLen_pos
      have hrest := ih (buf.length - (offset + (recordAt past buf offset).recordLen))
        (by omega) _ _ hin (fun a ha => h a (List.mem_append_right _ ha)) rfl
      have hsplit : buf.drop offset = (recordAt past buf offset).bytes ++
          buf.drop (offset + (recordAt past buf offset).recordLen) := by
        rw [recordAt_bytes hin, ← List.drop_drop, List.take_append_drop]
      rw [hsplit]
      exact hrest.cons _

theorem parseLoop_within_iff :
    (∀ a ∈ (parseLoop past buf buf.length 0 opts).2, a.Within buf.length) ↔
      WellFormedBlock buf := by
  constructor
  · intro h
    simpa using wellFormed_of_within 0 _ (Nat.zero_le _) h
  · rintro ⟨rs, rfl⟩
    simpa using (@parseLoop_block past [] rs [] opts).2

/-- Each round makes three reads and moves on by at least four bytes. -/
theorem parseLoop_rounds (optLen offset : ℕ) (opts : OptionMap) :
    ∃ rounds, (parseLoop past buf optLen offset opts).2.length = 3 * rounds ∧
      4 * rounds ≤ optLen - offset + 3 := by
  induction hk : optLen - offset using Nat.strongRecOn generalizing offset opts with
  | _ k ih =>
    by_cases hlt : offset < optLen
    · have hpos : 4 ≤ (recordAt past buf offset).recordLen := by simp [OptionRequest.recordLen]
      -- a round moves on by the four bytes of the two fields at least
      obtain ⟨n, hn, hle⟩ := ih (optLen - (offset + (recordAt past buf offset).recordLen))
        (by omega) _ (opts.set (recordAt past buf offset)) rfl
      refine ⟨n + 1, ?_, ?_⟩
      · rw [parseLoop_of_lt hlt, List.length_append, hn]
        simp only [recordReads, List.length_cons, List.length_nil]
        omega
      · omega
    · rw [parseLoop_of_le (Nat.le_of_not_lt hlt)]
      exact ⟨0, by simp, by omega⟩

end SampleTools
