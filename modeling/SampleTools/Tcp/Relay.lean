import Mathlib.Data.List.Flatten
import Mathlib.Data.List.Pairwise
import SampleTools.Tcp.RoundTrip

/-!
# Relaying a frame

A server decodes a frame and sends the message on. The option block passes through the map
of the message: of records with one id the last one stays, in an order the map chooses. The
block sent is then no longer than the one received, so its length fits the head again.

## Main definitions

* `keepLast`: of the records with one id, the last

## Main results

* `requests_foldl_set_perm`: the options of a parsed block are the records kept
* `relay_preserves`: what a relay changes in a frame
-/

namespace SampleTools

open LittleEndian

/-- The records after which no record with the same id comes. -/
def keepLast (rs : List OptionRequest) : List OptionRequest :=
  rs.pwFilter fun r r' => r.optionId ≠ r'.optionId

theorem keepLast_sublist (rs : List OptionRequest) : (keepLast rs).Sublist rs :=
  List.pwFilter_sublist rs

theorem keepLast_of_nodup {rs : List OptionRequest}
    (h : (rs.map OptionRequest.optionId).Nodup) : keepLast rs = rs :=
  List.pwFilter_eq_self.mpr (List.pairwise_map.mp h)

theorem keepLast_nodup (rs : List OptionRequest) : (keepLast rs).Nodup :=
  (List.pairwise_pwFilter rs).imp fun h heq => h (congrArg OptionRequest.optionId heq)

/-- A record is kept if a search from the back finds it first. -/
theorem mem_keepLast_iff {rs : List OptionRequest} {r : OptionRequest} :
    r ∈ keepLast rs ↔ rs.reverse.find? (fun r' => r'.optionId = r.optionId) = some r := by
  induction rs with
  | nil => simp [keepLast]
  | cons a rs ih =>
    have hall : (∀ b ∈ keepLast rs, a.optionId ≠ b.optionId) ↔ ∀ b ∈ rs, a.optionId ≠ b.optionId :=
      List.forall_mem_pwFilter (fun h => by
        by_contra hne
        simp only [not_or, not_not] at hne
        exact h (hne.1.trans hne.2)) a rs
    have hlast : ∀ b, [a].find? (fun r' => r'.optionId = r.optionId) = some b → b = a :=
      fun b hb => List.mem_singleton.mp (List.mem_of_find?_eq_some hb)
    rw [List.reverse_cons, List.find?_append]
    by_cases h : ∀ b ∈ rs, a.optionId ≠ b.optionId
    -- `a` is kept, and none of the others has its id
    · rw [keepLast, List.pwFilter_cons_of_pos (hall.mpr h), List.mem_cons, ← keepLast, ih]
      cases hfind : rs.reverse.find? fun r' => r'.optionId = r.optionId with
      | none =>
        rw [Option.none_or]
        refine ⟨?_, fun hr => .inl (hlast r hr)⟩
        rintro (rfl | hr)
        · simp
        · cases hr
      | some b =>
        rw [Option.some_or, or_iff_right]
        rintro rfl
        have hb := List.mem_reverse.mp (List.mem_of_find?_eq_some hfind)
        have hid : b.optionId = r.optionId := by simpa using List.find?_some hfind
        exact h b hb hid.symm
    -- a record behind `a` has its id
    · rw [keepLast, List.pwFilter_cons_of_neg (fun hkeep => h (hall.mp hkeep)), ← keepLast, ih]
      push Not at h
      obtain ⟨b, hb, hid⟩ := h
      cases hfind : rs.reverse.find? fun r' => r'.optionId = r.optionId with
      | none =>
        rw [Option.none_or]
        refine ⟨fun hr => (by cases hr), fun hr => ?_⟩
        obtain rfl := hlast r hr
        have hne := List.find?_eq_none.mp hfind b (List.mem_reverse.mpr hb)
        exact absurd hid.symm (by simpa using hne)
      | some b => rw [Option.some_or]

/-- The options of a parsed block are the last records of its ids, in some order. -/
theorem requests_foldl_set_perm (rs : List OptionRequest) :
    (rs.foldl OptionMap.set .empty).requests.Perm (keepLast rs) := by
  refine (List.perm_ext_iff_of_nodup (OptionMap.requests_nodup _) (keepLast_nodup rs)).mpr
    fun r => ?_
  rw [OptionMap.mem_requests_iff, OptionMap.get_foldl_set, OptionMap.get_empty, Option.or_none,
    mem_keepLast_iff]
  simp only [idKey_inj]

theorem block_length_le_of_sublist {rs rs' : List OptionRequest} (h : rs.Sublist rs') :
    (block rs).length ≤ (block rs').length :=
  (h.flatMap OptionRequest.bytes).length_le

/-- **Relaying a frame.** Decoded and sent on, a frame keeps its version, service, message
type, topic and data; its option block becomes the records kept, in some order, and the head
tells the length of that block, which is the received one if no id is repeated. -/
theorem relay_preserves {f : Frame} (hf : f.Valid) {rs : List OptionRequest}
    (hopts : f.opts = block rs) (past : ℕ → UInt8) (s : List UInt8)
    (o : IterOrder OptionRequest) :
    ∃ msg, decodeMsgWithHead past (f.bytes ++ s) = (some msg, s) ∧
      let sent := (msg.sendData o).2
      sent.head.version = f.head.version ∧ sent.head.service = f.head.service ∧
      sent.head.msgtype = f.head.msgtype ∧ sent.head.topic = f.head.topic ∧
      sent.data = f.data ∧
      (∃ rs', rs'.Perm (keepLast rs) ∧ sent.opts = block rs') ∧
      sent.Valid ∧
      ((rs.map OptionRequest.optionId).Nodup → sent.head.optslen = f.head.optslen) := by
  have hfit : (QtpMsg.ofFrame past f).BuffersFit := .ofFrame hf
  have hmap := @QtpMsg.ofFrame_opts past f hf rs hopts
  have hperm : (o.order (QtpMsg.ofFrame past f).opts.requests).Perm (keepLast rs) := by
    rw [hmap]
    exact (o.perm _).trans (requests_foldl_set_perm rs)
  have hlen : (QtpMsg.ofFrame past f).opts.encodedLen = (block (keepLast rs)).length := by
    rw [← OptionMap.block_order_length o, block_length_of_perm hperm]
  have hoptslen : f.opts.length = f.head.optslen.toNat := hf.1
  have hdatalen : f.data.length = f.head.datalen.toNat := hf.2
  have hdata : (QtpMsg.ofFrame past f).dataBytes = f.data :=
    congrArg Frame.data (QtpMsg.frame_ofFrame hf)
  refine ⟨_, decodeMsgWithHead_bytes past hf s, ?_⟩
  intro sent
  have hsent : sent = _ := QtpMsg.sendData_snd o hfit
  refine ⟨by rw [hsent]; rfl, by rw [hsent]; rfl, by rw [hsent]; rfl, by rw [hsent]; rfl,
    by rw [hsent, hdata], ⟨_, hperm, by rw [hsent]⟩, ?_, fun hnodup => ?_⟩
  · -- the block sent is no longer than the block received
    refine (QtpMsg.sendData_valid_iff o hfit).mpr ⟨?_, ?_⟩
    · have hle := block_length_le_of_sublist (keepLast_sublist rs)
      have hlt := f.head.optslen.toNat_lt
      rw [hopts] at hoptslen
      omega
    · have hlt := f.head.datalen.toNat_lt
      rw [QtpMsg.ofFrame_dataLen hf]
      omega
  · -- distinct ids: nothing is dropped, only the order may change
    rw [QtpMsg.sendData_optslen o hfit, hlen, keepLast_of_nodup hnodup, ← hopts, hoptslen,
      UInt16.ofNat_toNat]

/-- Three records, two of one id: the last of the two stays, and the block is 12 bytes long. -/
theorem relay_preserves_repeated :
    let f : Frame := ⟨{ msgtype := 1003, optslen := 17, datalen := 1 },
      [1, 0, 1, 0, 7, 2, 0, 2, 0, 8, 9, 1, 0, 2, 0, 5, 6], [3]⟩
    ∃ msg, decodeMsgWithHead (fun _ => 0) (f.bytes ++ [255]) = (some msg, [255]) ∧
      (msg.sendData .reversed).2.data = [3] ∧
      (msg.sendData .reversed).2.opts.length = 12 ∧ (msg.sendData .reversed).2.Valid := by
  intro f
  have hopts : f.opts = block [⟨1, 1, [7], rfl⟩, ⟨2, 2, [8, 9], rfl⟩, ⟨1, 2, [5, 6], rfl⟩] := rfl
  obtain ⟨msg, hmsg, -, -, -, -, hdata, ⟨rs', hperm, hsent⟩, hvalid, -⟩ :=
    relay_preserves (show f.Valid from ⟨rfl, rfl⟩) hopts (fun _ => 0) [255] .reversed
  refine ⟨msg, hmsg, hdata, ?_, hvalid⟩
  rw [hsent, block_length_of_perm hperm]
  rfl

end SampleTools
