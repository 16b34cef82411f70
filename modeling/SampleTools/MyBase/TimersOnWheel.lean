import SampleTools.MyBase.Timers
import SampleTools.MyBase.WheelRuns

/-!
# The timers of `TimerMan` on the timer wheel

A `TMEvent` has an event of the wheel, whose callback is `onTimer`. What `TimerMan` does with a
wheel is a run of `TimerImpl`: in it the clock goes on only when no timer is due, and a timer is
executed only when it is due.

## Main definitions

* `TMData`, `TimerClient`: the events and what the manager knows, without the wheel
* `TimerClient.callback`: `onTimer` of the event that the wheel executes
* `TimerManStep`, `TimerClient.step`: the calls of a program and of the thread of `run`
* `TimerClient.toImpl`: the manager with the ticks of its wheel

## Main results

* `TimerClient.toImpl_applyAll`, `TimerClient.toImpl_execute`: calls and callbacks on the wheel
* `TimerClient.Sane.performs`: what a step on the wheel does, `TimerImpl` can do
* `TimerClient.run_refines`: runs of `TimerMan` on the wheel are runs of `TimerImpl`
-/

namespace SampleTools

/-- The fields of `TMEvent` beside the event of the wheel. -/
structure TMData where
  ms : Int32
  cnts : Int32
  maxCnts : Int32
  canceled : Bool
  deriving DecidableEq, Repr

/-- What the manager knows. The event of the wheel in a `TMEvent` has the number of its handle. -/
structure TimerClient where
  requests : List TimerRequest := []
  event : ℕ → Option TMData := fun _ => none
  timers : List ℕ := []
  fired : List (ℕ × ℕ) := []
  misused : Bool := false

namespace TimerClient

/-- A function of the manager: its state, and the calls of the wheel; `none` is a use of an event
that was deleted. -/
abbrev Calls := Option (TimerClient × List (WheelCall ℕ))

/-- `set` at a tick. -/
def set (now : ℕ) (ms cnt memory : Int32) (s : TimerClient) : TimerClient × List (WheelCall ℕ) :=
  let htimer := s.requests.length
  ({ s with
      requests := s.requests ++ [⟨now, ms, cnt, memory⟩]
      event := Function.update s.event htimer (some ⟨ms, memory, cnt, false⟩)
      timers := htimer :: s.timers },
    [.schedule htimer (ticksOf ms)])

/-- `cancel`. -/
def cancel (htimer : Option ℕ) (s : TimerClient) : Calls :=
  match htimer with
  | none => some (s, [])
  | some h =>
    (s.event h).map fun _ =>
      ({ s with event := Function.update s.event h none, timers := s.timers.erase h },
        [.cancel h])

/-- `setTimer` or `stopTimer`. -/
def apply (now : ℕ) (s : TimerClient) : TimerOp → Calls
  | .set ms cnt memory => some (s.set now ms cnt memory)
  | .stop htimer => s.cancel htimer

/-- Calls one after another. -/
def applyAll (now : ℕ) (s : TimerClient) : List TimerOp → Calls
  | [] => some (s, [])
  | op :: ops =>
    (s.apply now op).bind fun (s, calls) =>
      (s.applyAll now ops).map fun (s, calls') => (s, calls ++ calls')

/-- `onTimer`; `ops` are the calls made while the callback runs. -/
def onTimer (now h : ℕ) (ops : List TimerOp) (s : TimerClient) : Calls :=
  ({ s with fired := s.fired ++ [(h, now)] }.applyAll now ops).bind
    fun ((s : TimerClient), calls) =>
      (s.event h).map fun evt : TMData =>
        let evt := { evt with cnts := evt.cnts + 1 }
        ({ s with event := Function.update s.event h (some evt) },
          if evt.canceled = false ∧ evt.cnts < evt.maxCnts then
            calls ++ [WheelCall.schedule h (ticksOf evt.ms)]
          else calls)

/-- What the wheel executes. `user` tells the calls a program makes in the callback of a timer.
Nothing follows on a use of a deleted event. -/
def callback (user : ℕ → TimerClient → List TimerOp) : Callback ℕ TimerClient := fun h w s =>
  if s.misused then (s, [])
  else (s.onTimer (w.now 0) h (user h s)).getD ({ s with misused := true }, [])

end TimerClient

/-- `MIN_RESOLUTION`. -/
def minResolution : ℕ := 5

/-- A call of a program, or a round of the thread of `run`. -/
inductive TimerManStep
  | op (o : TimerOp)
  | round
  deriving DecidableEq, Repr

namespace TimerClient

/-- The state afterwards; `none` is an aborted wheel. -/
def step (user : ℕ → TimerClient → List TimerOp) (r : WheelState ℕ TimerClient) :
    TimerManStep → Option (WheelState ℕ TimerClient)
  | .op o =>
    let (s, calls) :=
      (r.client.apply (r.wheel.now 0) o).getD ({ r.client with misused := true }, [])
    calls.foldlM WheelState.call { r with client := s }
  | .round => (WheelState.advance (callback user) minResolution (2 ^ 64 - 1) r).map Prod.snd

/-- The manager with the ticks that its wheel knows. -/
def toImpl (q : TimerQueue ℕ) (s : TimerClient) : TimerImpl where
  now := q.now
  requests := s.requests
  event h := (s.event h).map fun evt => ⟨evt.ms, evt.cnts, evt.maxCnts, evt.canceled, q.due h⟩
  timers := s.timers
  fired := s.fired
  misused := s.misused

/-! ## Calls of the wheel -/

/-- What a call does to the timers of the wheel. Timers are not scheduled in ranges. -/
def callQueue (q : TimerQueue ℕ) : WheelCall ℕ → TimerQueue ℕ
  | .schedule h delta => q.put h (some (q.now + delta))
  | .scheduleInRange .. => q
  | .cancel h => q.put h none

/-- Calls that `TimerMan` makes. -/
def Plain (now : ℕ) : WheelCall ℕ → Prop
  | .schedule _ delta => 0 < delta ∧ now + delta < 2 ^ 64
  | .scheduleInRange .. => False
  | .cancel _ => True

variable {r r' : WheelState ℕ TimerClient} {q q' : TimerQueue ℕ} {s s' : TimerClient}
  {calls : List (WheelCall ℕ)} {now h : ℕ}

theorem Plain.allowed {c : WheelCall ℕ} (hc : Plain now c) : c.Allowed now := by
  cases c with
  | schedule h delta => exact hc
  | scheduleInRange h first last => exact hc.elim
  | cancel h => exact hc

theorem call_queue {c : WheelCall ℕ} (hc : Plain (r.wheel.now 0) c) (hcall : r.call c = some r') :
    r'.wheel.queue = callQueue r.wheel.queue c := by
  cases c with
  | schedule h delta =>
    obtain ⟨w, hw, rfl⟩ := Option.map_eq_some_iff.mp hcall
    rw [TimerWheel.schedule, if_neg hc.1.ne'] at hw
    obtain ⟨⟨level, delta'⟩, -, rfl⟩ := Option.map_eq_some_iff.mp hw
    have htick : toTick (r.wheel.now 0 + delta) = r.wheel.now 0 + delta := Nat.mod_eq_of_lt hc.2
    exact (TimerWheel.queue_relink h _ _ r.wheel).trans (by rw [htick]; rfl)
  | scheduleInRange h first last => exact hc.elim
  | cancel h =>
    cases hcall
    exact TimerWheel.queue_cancel h r.wheel

theorem calls_queue (hcalls : ∀ c ∈ calls, Plain (r.wheel.now 0) c)
    (hrun : calls.foldlM WheelState.call r = some r') :
    r'.wheel.queue = calls.foldl callQueue r.wheel.queue := by
  induction calls generalizing r with
  | nil =>
    cases hrun
    rfl
  | cons c calls ih =>
    obtain ⟨r₁, hc, hrest⟩ := Option.bind_eq_some_iff.mp hrun
    rw [List.forall_mem_cons] at hcalls
    have hqueue := call_queue hcalls.1 hc
    have hnow : r₁.wheel.now 0 = r.wheel.now 0 := by
      have hsame : (callQueue r.wheel.queue c).now = r.wheel.queue.now := by cases c <;> rfl
      exact (congrArg TimerQueue.now hqueue).trans hsame
    rw [ih (hnow ▸ hcalls.2) hrest, hqueue]
    rfl

/-! ## Calls of a program -/

/-- A timer is set with a positive time. -/
def Positive : TimerOp → Prop
  | .set ms _ _ => 0 < ms.toInt
  | .stop _ => True

instance : DecidablePred Positive
  | .set .. => inferInstanceAs (Decidable (_ < _))
  | .stop _ => inferInstanceAs (Decidable True)

/-- Positive times are ticks, and less than `2 ^ 31`. -/
theorem ticksOf_mem {ms : Int32} (hms : 0 < ms.toInt) : 0 < ticksOf ms ∧ ticksOf ms < 2 ^ 31 := by
  have hlt := ms.toInt_lt
  unfold ticksOf
  rw [Int.emod_eq_of_lt hms.le (by omega)]
  omega

theorem toImpl_set (ms cnt memory : Int32) (q : TimerQueue ℕ) (s : TimerClient) :
    (toImpl q s).set ms cnt memory =
      toImpl ((s.set q.now ms cnt memory).2.foldl callQueue q) (s.set q.now ms cnt memory).1 := by
  have hevent : Function.update (toImpl q s).event s.requests.length
      (some (.start ⟨q.now, ms, cnt, memory⟩)) =
        (toImpl (q.put s.requests.length (some (q.now + ticksOf ms)))
          (s.set q.now ms cnt memory).1).event := by
    funext h
    show _ = (Function.update s.event _ _ h).map _
    by_cases hh : h = s.requests.length
    · rw [hh, Function.update_self, Function.update_self, Option.map_some,
        TimerQueue.put_due_self]
      rfl
    · rw [Function.update_of_ne hh, Function.update_of_ne hh, TimerQueue.put_due_of_ne hh]
      rfl
  exact congrArg (fun event => TimerImpl.mk q.now (s.requests ++ [⟨q.now, ms, cnt, memory⟩]) event
    (s.requests.length :: s.timers) s.fired s.misused) hevent

theorem toImpl_cancel (htimer : Option ℕ) (q : TimerQueue ℕ) (s : TimerClient) :
    (toImpl q s).cancel htimer =
      (s.cancel htimer).map fun x => toImpl (x.2.foldl callQueue q) x.1 := by
  cases htimer with
  | none => rfl
  | some h =>
    show ((s.event h).map _).map _ = ((s.event h).map _).map _
    rw [Option.map_map, Option.map_map]
    refine congrArg (fun f => Option.map f (s.event h)) (funext fun evt => ?_)
    have hevent : Function.update (Function.update (toImpl q s).event h
        (some (TMEvent.cancel ⟨evt.ms, evt.cnts, evt.maxCnts, evt.canceled, q.due h⟩))) h none =
          (toImpl (q.put h none) { s with event := Function.update s.event h none }).event := by
      funext h'
      show _ = (Function.update s.event h none h').map _
      by_cases hh : h' = h
      · rw [hh, Function.update_self, Function.update_self]
        rfl
      · rw [Function.update_of_ne hh, Function.update_of_ne hh, Function.update_of_ne hh,
          TimerQueue.put_due_of_ne hh]
        rfl
    exact congrArg (fun event => TimerImpl.mk q.now s.requests event (s.timers.erase h) s.fired
      s.misused) hevent

theorem toImpl_apply (op : TimerOp) (q : TimerQueue ℕ) (s : TimerClient) :
    (toImpl q s).apply op =
      (s.apply q.now op).map fun x => toImpl (x.2.foldl callQueue q) x.1 := by
  cases op with
  | set ms cnt memory => exact congrArg some (toImpl_set ms cnt memory q s)
  | stop htimer => exact toImpl_cancel htimer q s

theorem foldl_callQueue_now (calls : List (WheelCall ℕ)) (q : TimerQueue ℕ) :
    (calls.foldl callQueue q).now = q.now := by
  induction calls generalizing q with
  | nil => rfl
  | cons c calls ih =>
    rw [List.foldl_cons, ih]
    cases c <;> rfl

theorem toImpl_applyAll (ops : List TimerOp) (q : TimerQueue ℕ) (s : TimerClient) :
    (toImpl q s).applyAll ops =
      (s.applyAll q.now ops).map fun x => toImpl (x.2.foldl callQueue q) x.1 := by
  induction ops generalizing q s with
  | nil => rfl
  | cons op ops ih =>
    rw [TimerImpl.applyAll, applyAll, toImpl_apply]
    cases s.apply q.now op with
    | none => rfl
    | some x =>
      obtain ⟨s₁, calls⟩ := x
      show (toImpl (calls.foldl callQueue q) s₁).applyAll ops = _
      rw [ih, foldl_callQueue_now, Option.bind_some]
      dsimp only
      rw [Option.map_map]
      refine congrArg (fun f => Option.map f (s₁.applyAll q.now ops)) (funext fun x => ?_)
      show _ = toImpl ((calls ++ x.2).foldl callQueue q) x.1
      rw [List.foldl_append]

/-- The manager with another event. -/
theorem toImpl_put {h : ℕ} (evt : TMData) (tick : Option ℕ) {q q' : TimerQueue ℕ}
    (hself : q'.due h = tick) (hother : ∀ h', h' ≠ h → q'.due h' = q.due h')
    (hnow : q'.now = q.now) (s : TimerClient) :
    (toImpl q s).put h (some ⟨evt.ms, evt.cnts, evt.maxCnts, evt.canceled, tick⟩) =
      toImpl q' { s with event := Function.update s.event h (some evt) } := by
  have hevent : Function.update (toImpl q s).event h
      (some ⟨evt.ms, evt.cnts, evt.maxCnts, evt.canceled, tick⟩) =
        (toImpl q' { s with event := Function.update s.event h (some evt) }).event := by
    funext h'
    show _ = (Function.update s.event h (some evt) h').map _
    by_cases hh : h' = h
    · rw [hh, Function.update_self, Function.update_self, Option.map_some, hself]
    · rw [Function.update_of_ne hh, Function.update_of_ne hh, hother h' hh]
      rfl
  unfold TimerImpl.put
  rw [hevent]
  exact congrArg (fun now => TimerImpl.mk now s.requests _ s.timers s.fired s.misused) hnow.symm

/-- An execution by the wheel. -/
theorem toImpl_execute {h : ℕ} {evt : TMData} (hevt : s.event h = some evt) (ops : List TimerOp)
    (q : TimerQueue ℕ) :
    (toImpl q s).execute h ops =
      (s.onTimer q.now h ops).map fun x => toImpl (x.2.foldl callQueue (q.put h none)) x.1 := by
  have hpop : (toImpl q s).put h (some ⟨evt.ms, evt.cnts, evt.maxCnts, evt.canceled, none⟩) =
      toImpl (q.put h none) s := by
    rw [toImpl_put evt none (TimerQueue.put_due_self h none q)
      (fun h' hh => TimerQueue.put_due_of_ne hh none q) rfl,
      Function.update_eq_self_iff.mpr hevt.symm]
  have hget : (toImpl q s).event h =
      some ⟨evt.ms, evt.cnts, evt.maxCnts, evt.canceled, q.due h⟩ := by
    show (s.event h).map _ = _
    rw [hevt]
    rfl
  have hops := toImpl_applyAll ops (q.put h none) { s with fired := s.fired ++ [(h, q.now)] }
  rw [TimerImpl.execute, hget, Option.bind_some]
  show TimerImpl.onTimer h ops
    ((toImpl q s).put h (some ⟨evt.ms, evt.cnts, evt.maxCnts, evt.canceled, none⟩)) = _
  rw [hpop]
  show ((toImpl (q.put h none) { s with fired := s.fired ++ [(h, q.now)] }).applyAll ops).bind _ = _
  rw [hops]
  unfold onTimer
  have hnow : (q.put h none).now = q.now := rfl
  rw [hnow]
  -- the calls of the callback, then the count of onTimer and its call of schedule
  cases ({ s with fired := s.fired ++ [(h, q.now)] } : TimerClient).applyAll q.now ops with
  | none => rfl
  | some x =>
    obtain ⟨s₁, calls⟩ := x
    rw [Option.map_some, Option.bind_some, Option.bind_some]
    dsimp only
    rw [Option.map_map]
    show ((s₁.event h).map _).map _ = _
    rw [Option.map_map]
    refine congrArg (fun f => Option.map f (s₁.event h)) (funext fun evt => ?_)
    show (toImpl (calls.foldl callQueue (q.put h none)) s₁).put h
      (some (TMEvent.countOne (calls.foldl callQueue (q.put h none)).now _)) =
        toImpl ((if evt.canceled = false ∧ evt.cnts + 1 < evt.maxCnts then
          calls ++ [.schedule h (ticksOf evt.ms)] else calls).foldl callQueue (q.put h none))
          { s₁ with event := Function.update s₁.event h (some { evt with cnts := evt.cnts + 1 }) }
    unfold TMEvent.countOne
    generalize hq₁ : calls.foldl callQueue (q.put h none) = q₁
    dsimp only
    split
    next =>
      -- not the last time: the event is scheduled again
      rw [List.foldl_append, hq₁]
      exact toImpl_put { evt with cnts := evt.cnts + 1 } _ (TimerQueue.put_due_self ..)
        (fun h' hh => TimerQueue.put_due_of_ne hh ..) rfl s₁
    next =>
      rw [hq₁]
      exact toImpl_put { evt with cnts := evt.cnts + 1 } _ rfl (fun _ _ => rfl) rfl s₁

/-! ## What the calls of a program keep -/

/-- The timers that are there were set with positive times, and only they wait for a tick. -/
structure Fine (q : TimerQueue ℕ) (s : TimerClient) : Prop where
  positive : ∀ h evt, s.event h = some evt → 0 < evt.ms.toInt
  known : ∀ h, s.event h = none → q.due h = none

/-- A timer is there after a change, and waits as it likes. -/
theorem Fine.put (hfine : Fine q s) (evt : TMData) (hms : 0 < evt.ms.toInt)
    (hs' : s'.event = Function.update s.event h (some evt))
    (hother : ∀ h', h' ≠ h → q'.due h' = q.due h') : Fine q' s' := by
  constructor
  · intro h' evt' hevt'
    rw [hs', Function.update_apply] at hevt'
    split_ifs at hevt'
    · cases hevt'
      exact hms
    · exact hfine.positive h' evt' hevt'
  · intro h' hnone
    rw [hs', Function.update_apply] at hnone
    split_ifs at hnone with hh
    rw [hother h' hh, hfine.known h' hnone]

/-- A timer is deleted, or does not wait any more. -/
theorem Fine.put_none (hfine : Fine q s)
    (hs' : s'.event = Function.update s.event h none ∨ s'.event = s.event) :
    Fine (q.put h none) s' := by
  have hsub : ∀ h' evt, s'.event h' = some evt → s.event h' = some evt := by
    intro h' evt hevt
    rcases hs' with hs' | hs'
    · rw [hs', Function.update_apply] at hevt
      split_ifs at hevt
      exact hevt
    · rwa [hs'] at hevt
  refine ⟨fun h' evt hevt => hfine.positive h' evt (hsub h' evt hevt), fun h' hnone => ?_⟩
  by_cases hh : h' = h
  · rw [hh, TimerQueue.put_due_self]
  · rw [TimerQueue.put_due_of_ne hh]
    refine hfine.known h' ?_
    rcases hs' with hs' | hs'
    · rwa [hs', Function.update_of_ne hh] at hnone
    · rwa [hs'] at hnone

theorem Fine.apply {op : TimerOp} (hfine : Fine q s) (hop : Positive op)
    (hnow : now + 2 ^ 31 ≤ 2 ^ 64) (hrun : s.apply now op = some (s', calls)) :
    Fine (calls.foldl callQueue q) s' ∧ ∀ c ∈ calls, Plain now c := by
  cases op with
  | set ms cnt memory =>
    cases hrun
    obtain ⟨hpos, hlt⟩ := ticksOf_mem hop
    refine ⟨hfine.put ⟨ms, memory, cnt, false⟩ hop rfl
      (fun h' hh => TimerQueue.put_due_of_ne hh ..), ?_⟩
    intro c hc
    obtain rfl := List.mem_singleton.mp hc
    exact ⟨hpos, by omega⟩
  | stop htimer =>
    cases htimer with
    | none =>
      cases hrun
      exact ⟨hfine, fun c hc => absurd hc List.not_mem_nil⟩
    | some h =>
      obtain ⟨evt, -, heq⟩ := Option.map_eq_some_iff.mp hrun
      cases heq
      refine ⟨hfine.put_none (.inl rfl), ?_⟩
      intro c hc
      obtain rfl := List.mem_singleton.mp hc
      trivial

theorem Fine.applyAll {ops : List TimerOp} (hfine : Fine q s) (hops : ∀ op ∈ ops, Positive op)
    (hnow : now + 2 ^ 31 ≤ 2 ^ 64) (hrun : s.applyAll now ops = some (s', calls)) :
    Fine (calls.foldl callQueue q) s' ∧ ∀ c ∈ calls, Plain now c := by
  induction ops generalizing q s s' calls with
  | nil =>
    cases hrun
    exact ⟨hfine, fun c hc => absurd hc List.not_mem_nil⟩
  | cons op ops ih =>
    rw [List.forall_mem_cons] at hops
    obtain ⟨⟨s₁, calls₁⟩, hop, hrest⟩ := Option.bind_eq_some_iff.mp hrun
    obtain ⟨⟨s₂, calls₂⟩, hrun₂, heq⟩ := Option.map_eq_some_iff.mp hrest
    cases heq
    obtain ⟨hfine₁, hcalls₁⟩ := hfine.apply hops.1 hnow hop
    obtain ⟨hfine₂, hcalls₂⟩ := ih hfine₁ hops.2 hrun₂
    rw [List.foldl_append]
    exact ⟨hfine₂, List.forall_mem_append.mpr ⟨hcalls₁, hcalls₂⟩⟩

theorem Fine.onTimer {ops : List TimerOp} (hfine : Fine q s) (hops : ∀ op ∈ ops, Positive op)
    (hnow : now + 2 ^ 31 ≤ 2 ^ 64) (hrun : s.onTimer now h ops = some (s', calls)) :
    Fine (calls.foldl callQueue (q.put h none)) s' ∧ ∀ c ∈ calls, Plain now c := by
  obtain ⟨⟨s₁, calls₁⟩, hops₁, hrest⟩ := Option.bind_eq_some_iff.mp hrun
  obtain ⟨evt, hevt, heq⟩ := Option.map_eq_some_iff.mp hrest
  have hpopped : Fine (q.put h none) { s with fired := s.fired ++ [(h, now)] } :=
    hfine.put_none (.inr rfl)
  obtain ⟨hfine₁, hcalls₁⟩ := hpopped.applyAll hops hnow hops₁
  have hms := hfine₁.positive h evt hevt
  obtain ⟨hpos, hlt⟩ := ticksOf_mem hms
  dsimp only at heq
  split at heq
  next =>
    cases heq
    rw [List.foldl_append]
    refine ⟨hfine₁.put { evt with cnts := evt.cnts + 1 } hms rfl
      (fun h' hh => TimerQueue.put_due_of_ne hh ..), ?_⟩
    refine List.forall_mem_append.mpr ⟨hcalls₁, fun c hc => ?_⟩
    obtain rfl := List.mem_singleton.mp hc
    exact ⟨hpos, by omega⟩
  next =>
    cases heq
    exact ⟨hfine₁.put { evt with cnts := evt.cnts + 1 } hms rfl (fun _ _ => rfl), hcalls₁⟩

/-! ## Runs -/

/-- The calls of callbacks use handles that were returned, and set timers with positive times. -/
def Sound (user : ℕ → TimerClient → List TimerOp) : Prop :=
  ∀ h s, opsValid s.requests.length (user h s) = true ∧ ∀ op ∈ user h s, Positive op

/-- A run of `TimerImpl` leads to what the manager and its wheel are, unless both have used a
deleted event. -/
structure Simulated (q : TimerQueue ℕ) (s : TimerClient) : Prop where
  fine : Fine q s
  run : ∃ trace t, Run TimerImpl.step {} trace t ∧
    if s.misused = true then t.misused = true else t = toImpl q s

theorem Simulated.start : Simulated ⟨0, fun _ => none⟩ {} where
  fine := ⟨fun _ _ h => absurd h.symm (Option.some_ne_none _), fun _ _ => rfl⟩
  run := ⟨[], {}, .nil, rfl⟩

/-- Something happens to the manager and its wheel, and `TimerImpl` can do the same. -/
theorem Simulated.step {c : TimerCall} (hsim : Simulated q s) (hmisused : s.misused = false)
    (hc : (toImpl q s).Enabled c) (hfine : Fine q' s')
    (hperform : (toImpl q s).perform c = some (toImpl q' s') ∨
      (toImpl q s).perform c = none ∧ s'.misused = true) : Simulated q' s' := by
  obtain ⟨trace, t, hrun, hmatch⟩ := hsim.run
  rw [if_neg (Bool.eq_false_iff.mp hmisused)] at hmatch
  subst hmatch
  have hstep : (toImpl q s).step c = some (((toImpl q s).perform c).getD
      { toImpl q s with misused := true }) := if_pos ⟨hmisused, hc⟩
  refine ⟨hfine, _, _, hrun.snoc hstep, ?_⟩
  rcases hperform with hperform | ⟨hperform, hmisused'⟩
  · rw [hperform, Option.getD_some]
    split
    next hmisused' => exact hmisused'
    next => rfl
  · rw [hperform, if_pos hmisused']
    rfl

/-- After a use of a deleted event, only the wheel goes on. -/
theorem Simulated.of_misused (hsim : Simulated q s) (hmisused : s.misused = true)
    (hfine : Fine q' s) : Simulated q' s := by
  obtain ⟨trace, t, hrun, hmatch⟩ := hsim.run
  rw [if_pos hmisused] at hmatch
  exact ⟨hfine, trace, t, hrun, by rwa [if_pos hmisused]⟩

variable {user : ℕ → TimerClient → List TimerOp} {horizon : ℕ}

/-- The wheel goes on when no timer is due. -/
theorem Simulated.tick (hsim : Simulated q s) (hidle : q.Idle) :
    Simulated { q with now := q.now + 1 } s := by
  have hfine : Fine { q with now := q.now + 1 } s := ⟨hsim.fine.positive, hsim.fine.known⟩
  by_cases hmisused : s.misused = true
  · exact hsim.of_misused hmisused hfine
  · refine hsim.step (c := .tick) (Bool.eq_false_iff.mpr hmisused) ?_ hfine (.inl rfl)
    intro h _ hdue
    obtain ⟨evt', hevt', hat⟩ := Option.bind_eq_some_iff.mp hdue
    obtain ⟨evt, -, rfl⟩ := Option.map_eq_some_iff.mp hevt'
    exact hidle h hat

/-- The wheel executes an event. -/
theorem Simulated.fire (hsound : Sound user) (hsim : Simulated q s) (hnow : q.now + 2 ^ 31 ≤ 2 ^ 64)
    (hdue : q.due h = some q.now) {w : TimerWheel ℕ} (hw : w.now 0 = q.now)
    (hrun : callback user h w s = (s', calls)) :
    Simulated (calls.foldl callQueue (q.put h none)) s' ∧ ∀ c ∈ calls, Plain q.now c := by
  have hpop : Fine (q.put h none) { s with misused := true } := hsim.fine.put_none (.inr rfl)
  unfold callback at hrun
  rw [hw] at hrun
  by_cases hmisused : s.misused = true
  · rw [if_pos hmisused] at hrun
    cases hrun
    exact ⟨hsim.of_misused hmisused (hsim.fine.put_none (.inr rfl)),
      fun c hc => absurd hc List.not_mem_nil⟩
  · rw [if_neg hmisused] at hrun
    -- an event that waits is known to the manager
    obtain ⟨evt, hevt⟩ : ∃ evt, s.event h = some evt := by
      refine Option.ne_none_iff_exists'.mp fun hnone => ?_
      rw [hsim.fine.known h hnone] at hdue
      cases hdue
    have hexecute := toImpl_execute hevt (user h s) q
    have hc : (toImpl q s).Enabled (.fire h (user h s)) := by
      refine ⟨?_, (hsound h s).1⟩
      show ((s.event h).map _).bind TMEvent.scheduledAt = some q.now
      rw [hevt]
      exact hdue
    cases hcall : s.onTimer q.now h (user h s) with
    | none =>
      rw [hcall] at hrun hexecute
      cases hrun
      exact ⟨hsim.step (Bool.eq_false_iff.mpr hmisused) hc hpop (.inr ⟨hexecute, rfl⟩),
        fun c hc => absurd hc List.not_mem_nil⟩
    | some x =>
      rw [hcall] at hrun hexecute
      obtain rfl : x = (s', calls) := hrun
      obtain ⟨hfine, hplain⟩ := hsim.fine.onTimer (hsound h s).2 hnow hcall
      exact ⟨hsim.step (Bool.eq_false_iff.mpr hmisused) hc hfine (.inl hexecute), hplain⟩

theorem callback_keeps (hsound : Sound user) (hhorizon : horizon + 2 ^ 31 ≤ 2 ^ 64) :
    (callback user).Keeps Simulated horizon where
  tick _ _ hsim hidle _ := hsim.tick hidle
  allowed h w s hsim hnow hdue c hc := by
    obtain ⟨-, hplain⟩ := hsim.fire hsound (show w.now 0 + _ ≤ _ by omega) hdue
      (w := w.cancel h) rfl rfl
    exact (hplain c hc).allowed
  fire h r r' hsim hnow hdue hrun := by
    obtain ⟨hsim', hplain⟩ := hsim.fire hsound (show r.wheel.now 0 + _ ≤ _ by omega) hdue
      (w := r.wheel.cancel h) rfl rfl
    let r₁ : WheelState ℕ TimerClient :=
      { r.takeOut h with
        client := (callback user h (r.wheel.cancel h) r.client).1
        log := r.log ++ [.fire h] }
    have hcalls : (callback user h (r.wheel.cancel h) r.client).2.foldlM WheelState.call r₁ =
        some r' := hrun
    have hqueue : r₁.wheel.queue = r.wheel.queue.put h none := TimerWheel.queue_cancel h r.wheel
    rw [calls_queue (r := r₁) hplain hcalls, WheelState.calls_client hcalls, hqueue]
    exact hsim'

/-- What a program and the thread of `run` may do. The clock must not get past a last tick. -/
def Allowed (horizon : ℕ) (r : WheelState ℕ TimerClient) : TimerManStep → Prop
  | .op o => r.client.misused = false ∧ opsValid r.client.requests.length [o] = true ∧ Positive o
  | .round => r.wheel.target + minResolution ≤ horizon

instance (horizon : ℕ) (r : WheelState ℕ TimerClient) : DecidablePred (Allowed horizon r)
  | .op _ => inferInstanceAs (Decidable (_ ∧ _))
  | .round => inferInstanceAs (Decidable (_ ≤ _))

/-- Everything that is kept: the wheel is as it should be, and does not get past the last tick. -/
structure Sane (horizon : ℕ) (r : WheelState ℕ TimerClient) : Prop where
  good : r.Good Simulated
  target : r.wheel.target ≤ horizon

/-- The ticks that a step asks for. -/
def ticksFor : TimerManStep → ℕ
  | .op _ => 0
  | .round => minResolution

theorem Sane.now_le (h : Sane horizon r) : r.wheel.now 0 ≤ horizon :=
  (Nat.le_add_right _ _).trans h.target

/-- Calls of the wheel within a tick, when the manager is in another state. -/
theorem Sane.wheelCalls (h : Sane horizon r) (hplain : ∀ c ∈ calls, Plain (r.wheel.now 0) c)
    (hsim : Simulated (calls.foldl callQueue r.wheel.queue) s) :
    ∃ r', calls.foldlM WheelState.call { r with client := s } = some r' ∧ Sane horizon r' ∧
      r'.wheel.target = r.wheel.target := by
  obtain ⟨r', hrun, hwithin⟩ := WheelState.calls_within (r := { r with client := s })
    h.good.clocked h.good.placed fun c hc => (hplain c hc).allowed
  have hpending : r'.wheel.ticksPending = r.wheel.ticksPending := hwithin.pending
  have hnow : r'.wheel.now = r.wheel.now := hwithin.now
  have htarget : r'.wheel.target = r.wheel.target := by
    unfold TimerWheel.target
    rw [hpending, hnow]
  refine ⟨r', hrun, ⟨⟨?_, hwithin.clocked h.good.clocked, ?_, ?_⟩, htarget ▸ h.target⟩, htarget⟩
  · rw [calls_queue (r := { r with client := s }) hplain hrun, WheelState.calls_client hrun]
    exact hsim
  · rw [hpending]
    exact hwithin.placed
  · rw [hpending, hnow]
    exact h.good.started

/-- An allowed step. -/
theorem Sane.performs (hsound : Sound user) (hhorizon : horizon + 2 ^ 31 ≤ 2 ^ 64)
    (h : Sane horizon r) {c : TimerManStep} (hc : Allowed horizon r c) :
    ∃ r', step user r c = some r' ∧ Sane horizon r' ∧
      r'.wheel.target = r.wheel.target + ticksFor c := by
  cases c with
  | op o =>
    obtain ⟨hmisused, hvalid, hpos⟩ := hc
    have hsim := h.good.client
    have hperform := toImpl_apply o r.wheel.queue r.client
    have hnow := h.now_le
    have hstep : ∀ x, (r.client.apply (r.wheel.now 0) o).getD
        ({ r.client with misused := true }, []) = x →
          step user r (.op o) = x.2.foldlM WheelState.call { r with client := x.1 } := by
      rintro x rfl
      rfl
    cases hcall : r.client.apply (r.wheel.now 0) o with
    | none =>
      -- the manager uses a deleted event: no call reaches the wheel
      have hnone := hperform.trans (congrArg _ hcall)
      have hfine : Fine r.wheel.queue { r.client with misused := true } :=
        ⟨hsim.fine.positive, hsim.fine.known⟩
      rw [hstep _ (congrArg (Option.getD · _) hcall)]
      exact h.wheelCalls (fun c hc => absurd hc List.not_mem_nil)
        (hsim.step (c := .op o) hmisused hvalid hfine (.inr ⟨hnone, rfl⟩))
    | some x =>
      obtain ⟨s', calls⟩ := x
      have hsome := hperform.trans (congrArg _ hcall)
      obtain ⟨hfine, hplain⟩ := hsim.fine.apply hpos (by omega) hcall
      rw [hstep _ (congrArg (Option.getD · _) hcall)]
      exact h.wheelCalls hplain (hsim.step (c := .op o) hmisused hvalid hfine (.inl hsome))
  | round =>
    -- a round of the thread is one call of `advance`
    obtain ⟨through, r', hadvance, hgood, -, htarget, -⟩ :=
      WheelState.advance_spec (callback_keeps hsound hhorizon) (by omega) h.good
        (.inl (Nat.succ_ne_zero 4)) hc (2 ^ 64 - 1)
    exact ⟨r', congrArg (Option.map Prod.snd) hadvance, ⟨hgood, htarget ▸ hc⟩, htarget⟩

/-- In every run of `TimerMan` on the wheel, unless it uses a deleted event, what it and the wheel
know is what a run of `TimerImpl` leads to; the wheel has as many ticks to go as the rounds of its
thread ask for, and no assertion of the wheel fails. -/
theorem run_refines {scheduledAt : ℕ → ℕ} {trace : List (WheelState ℕ TimerClient × TimerManStep)}
    (hsound : Sound user) (hhorizon : horizon + 2 ^ 31 ≤ 2 ^ 64)
    (h : Run (step user) (WheelState.start 0 scheduledAt {}) trace r)
    (hallowed : ∀ e ∈ trace, Allowed horizon e.1 e.2) :
    (∃ trace' t, Run TimerImpl.step {} trace' t ∧
      if r.client.misused = true then t.misused = true
      else t = toImpl r.wheel.queue r.client) ∧
    r.wheel.target = (trace.map fun e => ticksFor e.2).sum ∧
    ∀ c, Allowed horizon r c → (step user r c).isSome = true := by
  suffices hrun : Sane horizon r ∧ r.wheel.target = (trace.map fun e => ticksFor e.2).sum by
    refine ⟨hrun.1.good.client.run, hrun.2, fun c hc => ?_⟩
    obtain ⟨r', hstep, -⟩ := hrun.1.performs hsound hhorizon hc
    rw [hstep]
    rfl
  induction h with
  | nil =>
    have hzero : (WheelState.start 0 scheduledAt {} : WheelState ℕ TimerClient).wheel.target = 0 :=
      Nat.zero_div _
    refine ⟨⟨WheelState.start_good Simulated.start, ?_⟩, hzero⟩
    exact hzero.trans_le (Nat.zero_le horizon)
  | @snoc trace r r' c hrun hstep ih =>
    obtain ⟨htrace, hc⟩ := List.forall_mem_append.mp hallowed
    obtain ⟨hsane, htarget⟩ := ih htrace
    obtain ⟨r₁, hstep₁, hsane₁, htarget₁⟩ :=
      hsane.performs hsound hhorizon (hc _ List.mem_cons_self)
    obtain rfl : r₁ = r' := Option.some.inj (hstep₁.symm.trans hstep)
    refine ⟨hsane₁, ?_⟩
    rw [htarget₁, htarget, List.map_append, List.sum_append]
    rfl

/-- A timer of three ticks calls back twice in two rounds. -/
theorem run_refines_two_rounds :
    ∃ (trace : List (WheelState ℕ TimerClient × TimerManStep)) (r : WheelState ℕ TimerClient),
      Run (step fun _ _ => []) (WheelState.start 0 (fun _ => 0) {}) trace r ∧
      trace.map Prod.snd = [.op (.set 3 2 0), .round, .round] ∧
      r.client.fired = [(0, 3), (0, 6)] ∧ r.client.misused = false ∧
      ∃ trace' t, Run TimerImpl.step {} trace' t ∧
        if r.client.misused = true then t.misused = true
        else t = toImpl r.wheel.queue r.client := by
  have hrun : Run (step fun _ _ => []) (WheelState.start 0 (fun _ => 0) {}) _ _ :=
    Run.nil.snoc (a := .op (.set 3 2 0)) rfl |>.snoc (a := .round) rfl |>.snoc (a := .round) rfl
  have hsound : Sound fun _ _ => [] := fun _ _ => ⟨rfl, fun _ hop => absurd hop List.not_mem_nil⟩
  have hhorizon : 1000 + 2 ^ 31 ≤ 2 ^ 64 := by decide
  exact ⟨_, _, hrun, rfl, rfl, rfl, (run_refines hsound hhorizon hrun (by decide)).1⟩

end TimerClient

end SampleTools
