import Mathlib.Data.List.Basic
import Mathlib.Tactic.Common

/-!
# Cutting a stream into frames

An extractor takes one frame off the front of a buffer, or finds that the buffer does
not hold a whole frame yet. It decides from the frame alone: more input behind a frame
changes nothing (`stable`). This is what makes reading independent of how the stream
was cut into pieces on its way.

## Main definitions

* `Extractor`: one extraction step
* `Extractor.drain`: extract until nothing whole is left
* `Extractor.receive`: append a piece of the stream, then drain

## Main results

* `Extractor.drain_append`: draining in two parts
* `Extractor.foldl_receive`: the pieces do not matter
* `Extractor.drain_lossless`, `Extractor.drain_flatMap`: nothing is lost, and encoded
  frames come back
* `Extractor.drain_front`: what comes out of the front of a stream of encoded frames
-/

/-- One extraction step: a frame and what follows it, or `none` while it is incomplete. -/
structure Extractor (α β : Type*) where
  next : List α → Option (β × List α)
  shorter : ∀ {xs b rest}, next xs = some (b, rest) → rest.length < xs.length
  stable : ∀ {xs b rest} (ys), next xs = some (b, rest) → next (xs ++ ys) = some (b, rest ++ ys)

namespace Extractor

variable {α β : Type*} (E : Extractor α β)

/-- All the whole frames at the front of the buffer, and what is left over. -/
def drain (xs : List α) : List β × List α :=
  match _h : E.next xs with
  | none => ([], xs)
  | some (b, rest) => (b :: (drain rest).1, (drain rest).2)
termination_by xs.length
decreasing_by all_goals exact E.shorter _h

variable {E}

theorem drain_of_none {xs : List α} (h : E.next xs = none) : E.drain xs = ([], xs) := by
  rw [drain]
  split
  · rfl
  · rename_i h'
    rw [h] at h'
    cases h'

theorem drain_of_some {xs rest : List α} {b : β} (h : E.next xs = some (b, rest)) :
    E.drain xs = (b :: (E.drain rest).1, (E.drain rest).2) := by
  rw [drain]
  split
  · rename_i h'
    rw [h] at h'
    cases h'
  · rename_i h'
    rw [h] at h'
    cases h'
    rfl

/-- Induction along the frames of a buffer. -/
theorem drain_induction {P : List α → Prop} (stop : ∀ xs, E.next xs = none → P xs)
    (step : ∀ xs b rest, E.next xs = some (b, rest) → P rest → P xs) (xs : List α) : P xs :=
  match h : E.next xs with
  | none => stop xs h
  | some (b, rest) => step xs b rest h (drain_induction stop step rest)
termination_by xs.length
decreasing_by exact E.shorter h

theorem drain_append (xs ys : List α) :
    E.drain (xs ++ ys) = ((E.drain xs).1 ++ (E.drain ((E.drain xs).2 ++ ys)).1,
      (E.drain ((E.drain xs).2 ++ ys)).2) := by
  induction xs using E.drain_induction with
  | stop xs h => simp [drain_of_none h]
  | step xs b rest h ih => rw [drain_of_some (E.stable ys h), drain_of_some h, ih, List.cons_append]

/-- What is left over is no whole frame. -/
theorem next_drain (xs : List α) : E.next (E.drain xs).2 = none := by
  induction xs using E.drain_induction with
  | stop xs h => rwa [drain_of_none h]
  | step xs b rest h ih => rwa [drain_of_some h]

variable (E) in
/-- One arrival: the piece joins the buffer, and every whole frame is taken out. -/
def receive (st : List β × List α) (piece : List α) : List β × List α :=
  (st.1 ++ (E.drain (st.2 ++ piece)).1, (E.drain (st.2 ++ piece)).2)

theorem receive_drain (xs ys : List α) : E.receive (E.drain xs) ys = E.drain (xs ++ ys) :=
  (drain_append xs ys).symm

/-- However the stream was cut, the frames are those of the whole stream. -/
theorem foldl_receive (xs : List α) (pieces : List (List α)) :
    pieces.foldl E.receive (E.drain xs) = E.drain (xs ++ pieces.flatten) := by
  induction pieces generalizing xs with
  | nil => simp
  -- the piece joins what was drained before
  | cons p ps ih => rw [List.foldl_cons, receive_drain, ih, List.flatten_cons, List.append_assoc]

section Encoding

variable {enc : β → List α}

/-- A step that only splits the buffer loses nothing over a whole drain. -/
theorem drain_lossless (h : ∀ {xs b rest}, E.next xs = some (b, rest) → xs = enc b ++ rest)
    (xs : List α) : (E.drain xs).1.flatMap enc ++ (E.drain xs).2 = xs := by
  induction xs using E.drain_induction with
  | stop xs hn => simp [drain_of_none hn]
  | step xs b rest hn ih =>
    rw [drain_of_some hn, List.flatMap_cons, List.append_assoc, ih, h hn]

/-- Frames written one after another are the frames read. -/
theorem drain_flatMap {bs : List β} (h : ∀ b ∈ bs, ∀ s, E.next (enc b ++ s) = some (b, s))
    (s : List α) :
    E.drain (bs.flatMap enc ++ s) = (bs ++ (E.drain s).1, (E.drain s).2) := by
  induction bs with
  | nil => simp
  | cons b bs ih =>
    rw [List.flatMap_cons, List.append_assoc, drain_of_some (h b List.mem_cons_self _),
      ih fun b' hb => h b' (List.mem_cons_of_mem _ hb), List.cons_append]

/-- The front of a stream of frames: the first of them are taken out, and what is left over is
where the others begin. -/
theorem drain_front {bs : List β} (h : ∀ b ∈ bs, ∀ s, E.next (enc b ++ s) = some (b, s))
    {xs ys : List α} (hsplit : xs ++ ys = bs.flatMap enc) :
    ∃ bs', bs = (E.drain xs).1 ++ bs' ∧ (E.drain xs).2 ++ ys = bs'.flatMap enc := by
  induction xs using E.drain_induction generalizing bs with
  | stop xs hn =>
    rw [drain_of_none hn]
    exact ⟨bs, rfl, hsplit⟩
  | step xs b rest hn ih =>
    have hnext := E.stable ys hn
    rw [hsplit] at hnext
    cases bs with
    | nil =>
      -- nothing comes out of an empty stream
      have hshort := E.shorter hnext
      rw [List.flatMap_nil] at hshort
      exact absurd hshort (Nat.not_lt_zero _)
    | cons b' bs =>
      rw [List.flatMap_cons, h b' List.mem_cons_self] at hnext
      obtain ⟨rfl, hrest⟩ := Prod.mk.inj (Option.some.inj hnext)
      obtain ⟨bs', hbs, hleft⟩ := ih (fun c hc => h c (List.mem_cons_of_mem _ hc)) hrest.symm
      rw [drain_of_some hn]
      exact ⟨bs', by rw [hbs, List.cons_append], hleft⟩

end Encoding

end Extractor
