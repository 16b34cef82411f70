import SampleTools.Qtp.Msg

/-!
# The options as a map

`add_option` takes a 16-bit id, `get_option` and `remove_option` take a 64-bit one, and
the enumeration `OptionId` has values above 65535. `lastAdded` is the map the interface
stands for: each id has the payload it was last given, until it is removed.

## Main definitions

* `OptionPayload`: what `add_option` stores under an id
* `OptionCall`, `QtpMsg.call`: a call of the option interface
* `lastAdded`: what a history of calls leaves under an id

## Main results

* `QtpMsg.getOption_addOption`, `QtpMsg.getOption_removeOption`: what one call does
* `options_match_iff`: the options are the map exactly if every added id fits 16 bits
-/

namespace SampleTools

/-- A payload of exactly `size` bytes. -/
@[ext]
structure OptionPayload where
  size : UInt16
  data : List UInt8
  size_eq : data.length = size.toNat

instance : DecidableEq OptionPayload := fun _ _ =>
  decidable_of_iff _ OptionPayload.ext_iff.symm

/-- The payload of an option. -/
def OptionRequest.payload (r : OptionRequest) : OptionPayload :=
  ⟨r.optionSize, r.optionBuf, r.size_eq⟩

/-- `OptionRequest(id, size, data)`; the id is converted on the way. -/
def OptionRequest.ofPayload (id : Int64) (p : OptionPayload) : OptionRequest :=
  ⟨idU16 id, p.size, p.data, p.size_eq⟩

/-- A call of the option interface, with the id its caller gives. -/
inductive OptionCall
  | add (o : IterOrder OptionRequest) (id : Int64) (value : OptionPayload)
  | remove (id : Int64)
  | get (id : Int64)

/-- An added id is one that 16 bits hold. -/
def OptionCall.IdFits : OptionCall → Prop
  | .add _ id _ => 0 ≤ id.toInt ∧ id.toInt ≤ 65535
  | .remove _ => True
  | .get _ => True

instance : (c : OptionCall) → Decidable c.IdFits
  | .add _ id _ => inferInstanceAs (Decidable (0 ≤ id.toInt ∧ id.toInt ≤ 65535))
  | .remove _ | .get _ => inferInstanceAs (Decidable True)

/-! ## The map the interface stands for -/

/-- What one more call leaves under `id`. -/
def holdAfter (id : Int64) (held : Option OptionPayload) : OptionCall → Option OptionPayload
  | .add _ i value => if i = id then some value else held
  | .remove i => if i = id then none else held
  | .get _ => held

/-- The payload of the last `add` of `id`, if no `remove` of it came later. -/
def lastAdded (calls : List OptionCall) (id : Int64) : Option OptionPayload :=
  calls.foldl (holdAfter id) none

theorem lastAdded_concat (calls : List OptionCall) (c : OptionCall) (id : Int64) :
    lastAdded (calls ++ [c]) id = holdAfter id (lastAdded calls id) c := by
  rw [lastAdded, List.foldl_append, List.foldl_cons, List.foldl_nil, lastAdded]

/-! ## The calls -/

namespace QtpMsg

/-- The message after a call. -/
def call (m : QtpMsg) : OptionCall → QtpMsg
  | .add o id value => m.addOption o (.ofPayload id value)
  | .remove id => (m.removeOption id).2
  | .get _ => m

/-- The message after a history of calls. -/
def calls (m : QtpMsg) (cs : List OptionCall) : QtpMsg := cs.foldl call m

theorem calls_concat (m : QtpMsg) (cs : List OptionCall) (c : OptionCall) :
    m.calls (cs ++ [c]) = (m.calls cs).call c := by
  rw [calls, List.foldl_append, List.foldl_cons, List.foldl_nil, calls]

variable {m : QtpMsg}

theorem getOption_addOption (o : IterOrder OptionRequest) (r : OptionRequest) (id : Int64) :
    (m.addOption o r).getOption id =
      if id = idKey r.optionId then some r else m.getOption id := by
  rw [getOption, addOption_opts]
  split
  next h => rw [h, OptionMap.get_set_self]
  next h => exact OptionMap.get_set_of_ne h

theorem getOption_removeOption (i id : Int64) :
    (m.removeOption i).2.getOption id = if id = i then none else m.getOption id := by
  rw [removeOption_eq]
  split
  next r hr =>
    rw [getOption]
    split
    next h => rw [h, OptionMap.get_erase_self]
    next h => exact OptionMap.get_erase_of_ne h
  next hnone =>
    split
    next h => rw [h, hnone]
    next => rfl

/-- Nothing is stored under an id that 16 bits do not hold. -/
theorem getOption_of_not_fits {id : Int64} (h : ¬ (0 ≤ id.toInt ∧ id.toInt ≤ 65535)) :
    m.getOption id = none := by
  rw [getOption, Option.eq_none_iff_forall_ne_some]
  intro r hr
  obtain ⟨-, rfl⟩ := OptionMap.get_eq_some_iff.mp hr
  have hlt := r.optionId.toNat_lt
  rw [idKey_toInt] at h
  omega

/-- `get_option` finds under every id what the map holds. -/
def Matches (m : QtpMsg) (cs : List OptionCall) : Prop :=
  ∀ id, (m.getOption id).map OptionRequest.payload = lastAdded cs id

theorem matches_new : ({} : QtpMsg).Matches [] := fun _ => rfl

/-- A call keeps the options equal to the map exactly if it adds no id that is too wide. -/
theorem Matches.call_iff {cs : List OptionCall} (h : m.Matches cs) (c : OptionCall) :
    (m.call c).Matches (cs ++ [c]) ↔ c.IdFits := by
  cases c with
  | add o id value =>
    constructor
    · intro h'
      by_contra hfits
      -- the id was just added, and `get_option` finds nothing under it
      have hid := h' id
      rw [getOption_of_not_fits hfits, lastAdded_concat] at hid
      simp [holdAfter] at hid
    · intro hfits i
      have hkey : idKey (OptionRequest.ofPayload id value).optionId = id :=
        idKey_idU16_iff.mpr hfits
      rw [QtpMsg.call, getOption_addOption, hkey, lastAdded_concat, holdAfter, ← h i]
      by_cases hi : i = id
      · rw [if_pos hi, if_pos hi.symm]
        rfl
      · rw [if_neg hi, if_neg (Ne.symm hi)]
  | remove id =>
    refine iff_of_true (fun i => ?_) trivial
    rw [QtpMsg.call, getOption_removeOption, lastAdded_concat, holdAfter, ← h i]
    by_cases hi : i = id
    · rw [if_pos hi, if_pos hi.symm]
      rfl
    · rw [if_neg hi, if_neg (Ne.symm hi)]
  | get id =>
    refine iff_of_true (fun i => ?_) trivial
    rw [QtpMsg.call, lastAdded_concat, holdAfter, ← h i]

end QtpMsg

/-- **The options as a finite map.** After every call of a history `get_option` finds under
every id the payload last added and not removed, exactly if every id that the history adds
is between 0 and 65535. -/
theorem options_match_iff (cs : List OptionCall) :
    (∀ pre, pre <+: cs → (({} : QtpMsg).calls pre).Matches pre) ↔ ∀ c ∈ cs, c.IdFits := by
  induction cs using List.reverseRecOn with
  | nil =>
    refine iff_of_true ?_ (by simp)
    rintro pre hpre
    rw [List.prefix_nil.mp hpre]
    exact QtpMsg.matches_new
  | append_singleton cs c ih =>
    simp only [List.prefix_concat_iff, List.forall_mem_append, List.forall_mem_singleton,
      forall_eq_or_imp, ← ih]
    constructor
    · rintro ⟨hlast, hpre⟩
      rw [QtpMsg.calls_concat] at hlast
      exact ⟨hpre, ((hpre cs (List.prefix_refl _)).call_iff c).mp hlast⟩
    · rintro ⟨hpre, hfits⟩
      rw [QtpMsg.calls_concat]
      exact ⟨((hpre cs (List.prefix_refl _)).call_iff c).mpr hfits, hpre⟩

/-- The user token is stored under the id 10187 and not found again. -/
theorem options_lose_user_token :
    let cs := [OptionCall.add .stored OptionId.userToken.toI64 ⟨1, [7], rfl⟩]
    let m := ({} : QtpMsg).calls cs
    lastAdded cs OptionId.userToken.toI64 = some ⟨1, [7], rfl⟩ ∧
      m.getOption OptionId.userToken.toI64 = none ∧
      lastAdded cs 10187 = none ∧
      (m.getOption 10187).map OptionRequest.payload = some ⟨1, [7], rfl⟩ := by
  decide +kernel

end SampleTools
