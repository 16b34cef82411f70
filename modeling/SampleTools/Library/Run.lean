import Mathlib.Data.Option.Basic
import Mathlib.Tactic.Common

/-!
# Runs of a step function

A step function says what a call does in a state, and `none` where the call cannot
happen. A run is recorded with the state each of its calls was made in.

Calls may also return values. Two systems whose calls agree in related states agree in all
sequences of calls.

## Main definitions

* `Run step s₀ trace s`: the calls of `trace`, in order, lead from `s₀` to `s`
* `callAll call s calls`: calls one after another, with all that they return

## Main results

* `Run.invariant`: what every step keeps holds in every state reached
* `Run.forall_good_iff`, `Run.forall_good_iff_of_tracked`: the exact condition for a property to
  hold in every state reached
* `Run.forall_of_steps`: a condition on the steps that is enough for it
* `forall_prefix_concat_iff`: what holds at each place of a run and of what comes before it
* `Run.trans`: runs compose
* `callAll_rel`: what calls agree on, sequences of calls agree on
-/

variable {σ α : Type*}

/-- The calls of the trace, each with the state it was made in, lead from `s₀` to `s`. -/
inductive Run (step : σ → α → Option σ) (s₀ : σ) : List (σ × α) → σ → Prop
  | nil : Run step s₀ [] s₀
  | snoc {trace : List (σ × α)} {s s' : σ} {a : α} :
    Run step s₀ trace s → step s a = some s' → Run step s₀ (trace ++ [(s, a)]) s'

section Prefix

variable {P : List α → α → Prop} {l : List α} {a : α}

/-- There is no place in an empty list. -/
theorem forall_prefix_nil : ∀ pre a, pre ++ [a] <+: [] → P pre a := by
  intro pre a hpre
  simp at hpre

/-- What holds at each place of a list and of what comes before it, for one more place. -/
theorem forall_prefix_concat_iff : (∀ pre b, pre ++ [b] <+: l ++ [a] → P pre b) ↔
    (∀ pre b, pre ++ [b] <+: l → P pre b) ∧ P l a := by
  constructor
  · intro h
    exact ⟨fun pre b hpre => h pre b (hpre.trans (List.prefix_append _ _)),
      h l a List.prefix_rfl⟩
  · rintro ⟨hbefore, hlast⟩ pre b hpre
    rcases List.prefix_concat_iff.mp hpre with heq | hpre
    · obtain ⟨rfl, hb⟩ := List.append_inj' heq rfl
      obtain rfl := List.singleton_inj.mp hb
      exact hlast
    · exact hbefore pre b hpre

end Prefix

namespace Run

variable {step : σ → α → Option σ} {s₀ s s' : σ} {trace trace' : List (σ × α)}

theorem invariant {I : σ → Prop} (hinit : I s₀)
    (hstep : ∀ {s a s'}, I s → step s a = some s' → I s') (h : Run step s₀ trace s) : I s := by
  induction h with
  | nil => exact hinit
  | snoc _ ha ih => exact hstep ih ha

/-- A property of states that a step from a good state keeps exactly under a condition on the
step: all states of a run are good exactly if all its steps meet the condition. -/
theorem forall_good_iff {I P : σ → Prop} {C : σ → α → Prop} (hinit : I s₀)
    (hkeep : ∀ {s a s'}, I s → step s a = some s' → I s') (hP : P s₀)
    (hstep : ∀ {s a s'}, I s → P s → step s a = some s' → (P s' ↔ C s a))
    (h : Run step s₀ trace s) :
    ((∀ e ∈ trace, P e.1) ∧ P s) ↔ ∀ e ∈ trace, C e.1 e.2 := by
  induction h with
  | nil => simpa using hP
  | snoc hrun ha ih =>
    have hI := hrun.invariant hinit hkeep
    simp only [List.forall_mem_append, List.forall_mem_singleton, ← ih]
    constructor
    · rintro ⟨⟨htrace, hs⟩, hs'⟩
      exact ⟨⟨htrace, hs⟩, (hstep hI hs ha).mp hs'⟩
    · rintro ⟨⟨htrace, hs⟩, hC⟩
      exact ⟨⟨htrace, hs⟩, (hstep hI hs ha).mpr hC⟩

/-- The same where a value goes with each state, and tells whether the state is good. -/
theorem forall_good_iff_of_tracked {β : Type*} {I Q : σ → β → Prop} {P : σ → Prop}
    {C : σ → α → Prop} {b₀ : β} (hinit : I s₀ b₀) (hQ : Q s₀ b₀)
    (hgood : ∀ {s b}, I s b → (P s ↔ Q s b))
    (hstep : ∀ {s a s' b}, I s b → step s a = some s' →
      ∃ b', I s' b' ∧ (Q s b → (Q s' b' ↔ C s a)))
    (h : Run step s₀ trace s) :
    ((∀ e ∈ trace, P e.1) ∧ P s) ↔ ∀ e ∈ trace, C e.1 e.2 := by
  refine h.forall_good_iff (I := fun s => ∃ b, I s b) ⟨b₀, hinit⟩ ?_ ((hgood hinit).mpr hQ) ?_
  · rintro s a s' ⟨b, hb⟩ ha
    obtain ⟨b', hb', -⟩ := hstep hb ha
    exact ⟨b', hb'⟩
  · rintro s a s' ⟨b, hb⟩ hP ha
    obtain ⟨b', hb', hkeep⟩ := hstep hb ha
    rw [hgood hb']
    exact hkeep ((hgood hb).mp hP)

/-- A property that the steps keep which meet a condition holds in every state of a run all of
whose steps meet it. -/
theorem forall_of_steps {P : σ → Prop} {C : σ → α → Prop} (hinit : P s₀)
    (hstep : ∀ {s a s'}, P s → C s a → step s a = some s' → P s') (h : Run step s₀ trace s)
    (hC : ∀ e ∈ trace, C e.1 e.2) : (∀ e ∈ trace, P e.1) ∧ P s := by
  induction h with
  | nil => simpa using hinit
  | snoc _ ha ih =>
    rw [List.forall_mem_append, List.forall_mem_singleton] at hC ⊢
    obtain ⟨htrace, hs⟩ := ih hC.1
    exact ⟨⟨htrace, hs⟩, hstep hs hC.2 ha⟩

/-- What holds in every state of a run holds in the first. -/
theorem of_forall {P : σ → Prop} (h : Run step s₀ trace s) (htrace : ∀ e ∈ trace, P e.1)
    (hs : P s) : P s₀ := by
  induction h with
  | nil => exact hs
  | snoc _ _ ih =>
    obtain ⟨htrace, hlast⟩ := List.forall_mem_append.mp htrace
    exact ih htrace (hlast _ List.mem_cons_self)

theorem trans (h : Run step s₀ trace s) (h' : Run step s trace' s') :
    Run step s₀ (trace ++ trace') s' := by
  induction h' with
  | nil => rwa [List.append_nil]
  | snoc _ ha ih => exact List.append_assoc _ _ _ ▸ ih.snoc ha

theorem cons {a : α} (ha : step s₀ a = some s) (h : Run step s trace s') :
    Run step s₀ ((s₀, a) :: trace) s' :=
  (nil.snoc ha).trans h

end Run

/-! ## Calls that return values -/

section Calls

variable {τ β γ : Type*}

/-- Calls one after another, with all that they return. -/
def callAll (call : σ → β → Option (γ × σ)) : σ → List β → Option (List γ × σ)
  | s, [] => some ([], s)
  | s, b :: bs =>
    (call s b).bind fun (c, s) => (callAll call s bs).map fun (cs, s) => (c :: cs, s)

/-- The same value and related states. -/
def Agree (R : σ → τ → Prop) (r : γ × σ) (r' : γ × τ) : Prop := r.1 = r'.1 ∧ R r.2 r'.2

/-- Calls that return the same, and keep the states related, do so in every sequence. -/
theorem callAll_rel {R : σ → τ → Prop} {call : σ → β → Option (γ × σ)}
    {call' : τ → β → Option (γ × τ)}
    (hcall : ∀ s t b, R s t → Option.Rel (Agree R) (call s b) (call' t b)) {s : σ} {t : τ}
    (h : R s t) (bs : List β) :
    Option.Rel (Agree R) (callAll call s bs) (callAll call' t bs) := by
  induction bs generalizing s t with
  | nil => exact .some ⟨rfl, h⟩
  | cons b bs ih =>
    have hb := hcall s t b h
    unfold callAll
    generalize call s b = r at hb
    generalize call' t b = r' at hb
    cases hb with
    | none => exact .none
    | some hr =>
      rename_i r r'
      obtain ⟨c, s⟩ := r
      obtain ⟨c', t⟩ := r'
      obtain ⟨rfl, hst⟩ : c = c' ∧ R s t := hr
      have hbs := ih hst
      dsimp only [Option.bind_some]
      generalize callAll call s bs = rs at hbs
      generalize callAll call' t bs = rs' at hbs
      cases hbs with
      | none => exact .none
      | some hrs => exact .some ⟨congrArg (c :: ·) hrs.1, hrs.2⟩

end Calls
