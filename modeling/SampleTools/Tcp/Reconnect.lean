import SampleTools.Tcp.EventClient

/-!
# When the client reconnects

A client that is not connected wakes up again by an event on a connection under way or by a
timer. A timer is armed only where an event reports a failure, and a timer that expires is
gone: a `Connect` that fails at once leaves nothing behind.

## Main definitions

* `EventClient.Wakes`: a started client is connected or will be woken up
* `Starts`: some attempt of a `Connect` is under way at its end
* `EventClient.KeepsWakeUp`: what a call needs for that

## Main results

* `Link.tryAll_underWay_iff`: when the attempts leave a connection under way
* `EventClient.wakes_iff`: when a client wakes up in every state of a run
-/

namespace SampleTools

/-- A connection is under way or up: its event callback has not reported a failure. -/
def Link.UnderWay (l : Link) : Prop := ∃ bev, l.client = some bev ∧ bev.failed = false

/-- Before an attempt returns without a connection, one starts to connect. -/
def Starts (params : ConnectionParams) : Bool → List Attempt → Prop
  | _, [] => False
  | hasSsl, a :: as =>
    match a.ending params hasSsl with
    | .next hasSsl => Starts params hasSsl as
    | .nothing => False
    | .started => True

instance decidableStarts (params : ConnectionParams) :
    ∀ hasSsl as, Decidable (Starts params hasSsl as)
  | _, [] => isFalse id
  | hasSsl, a :: as =>
    match h : a.ending params hasSsl with
    | .next hasSsl' =>
      have := decidableStarts params hasSsl' as
      decidable_of_iff (Starts params hasSsl' as) (by rw [Starts, h])
    | .nothing => isFalse (by rw [Starts, h]; exact id)
    | .started => isTrue (by rw [Starts, h]; trivial)

theorem Link.not_underWay {l : Link} (h : l.client = none) : ¬ l.UnderWay := by
  rintro ⟨bev, hbev, -⟩
  rw [h] at hbev
  cases hbev

/-- The attempts leave a connection under way exactly if one starts. -/
theorem Link.tryAll_underWay_iff (params : ConnectionParams) (as : List Attempt) {l : Link}
    (hclient : l.client = none) :
    (l.tryAll params as).2.UnderWay ↔ Starts params l.ssl.isSome as := by
  induction as generalizing l with
  | nil => exact iff_of_false (not_underWay hclient) id
  | cons a as ih =>
    have hspec := @connectTo_spec params a l hclient
    unfold tryAll Starts
    generalize l.connectTo params a = r at hspec
    obtain ⟨ret, l'⟩ := r
    cases hend : a.ending params l.ssl.isSome with
    | next hasSsl =>
      simp only [hend] at hspec ⊢
      obtain ⟨hret, hclient', hssl⟩ := hspec
      rw [if_neg hret, ih hclient', hssl]
    | nothing =>
      simp only [hend] at hspec ⊢
      rw [if_pos hspec.1]
      exact iff_of_false (not_underWay hspec.2) id
    | started =>
      simp only [hend] at hspec ⊢
      obtain ⟨hret, ssl, hclient'⟩ := hspec
      rw [if_pos hret]
      exact iff_of_true ⟨_, hclient', rfl⟩ trivial

namespace EventClient

/-- A started client that is not connected has a connection under way or a timer armed. -/
def Wakes (s : EventClient) : Prop :=
  s.isStarted = true → s.isConnected = false → s.link.UnderWay ∨ s.timers ≠ 0

/-- An attempt of a `Connect` starts to connect. -/
def StartsConnection (env : ConnectEnv) (s : EventClient) : Prop :=
  Starts s.params s.link.ssl.isSome (s.attempts env)

instance (env : ConnectEnv) (s : EventClient) : Decidable (s.StartsConnection env) :=
  inferInstanceAs (Decidable (Starts _ _ _))

/-- What a call needs: a `Connect` that starts, or a timer besides it; an event that reports a
failure, a timer that is armed already or can be made. -/
def KeepsWakeUp (s : EventClient) : ClientCall → Prop
  | .start params env =>
    { s with isStarted := true, params := params }.StartsConnection env ∨ s.timers ≠ 0
  | .connect env => s.isStarted = true → s.StartsConnection env ∨ s.timers ≠ 0
  | .close => s.isStarted = true → s.timers ≠ 0
  | .event events calls =>
    Disconnects events → s.isStarted = true →
      calls.eventNew = true ∧ calls.eventAdd = true ∨ s.timers ≠ 0
  | .timeout env =>
    s.isStarted = true → s.isConnected = false → s.StartsConnection env ∨ s.timers ≠ 1

variable {s s' : EventClient}

/-- After a `Connect` only a connection under way or a timer is left. -/
theorem wakes_connect_iff (env : ConnectEnv) (s : EventClient) :
    (s.connect env).2.Wakes ↔ (s.isStarted = true → s.StartsConnection env ∨ s.timers ≠ 0) := by
  have hreaches := connect_reaches env s
  unfold Wakes StartsConnection
  rw [hreaches.link, hreaches.isConnected, hreaches.isStarted, hreaches.timers,
    Link.tryAll_underWay_iff _ _ s.link.close_client, Link.close_ssl]
  simp [close]

/-- After an event that reports a failure only a timer is left. -/
theorem wakes_onDisconnected_iff (calls : TimerCalls) (s : EventClient) :
    ({ s.reportFailure with isConnected := false }.onDisconnected calls).Wakes ↔
      (s.isStarted = true → calls.eventNew = true ∧ calls.eventAdd = true ∨ s.timers ≠ 0) := by
  have hfailed : ¬ s.reportFailure.link.UnderWay := by
    rintro ⟨bev, hbev, hfailed⟩
    obtain ⟨old, -, rfl⟩ := Option.map_eq_some_iff.mp hbev
    cases hfailed
  unfold Wakes onDisconnected reConnect
  cases hstarted : s.isStarted with
  | false => simp [reportFailure, hstarted]
  | true =>
    cases hnew : calls.eventNew with
    | false => simpa [reportFailure, hstarted] using fun h => absurd h hfailed
    | true =>
      cases hadd : calls.eventAdd with
      | false => simpa [reportFailure, hstarted] using fun h => absurd h hfailed
      | true => simp [reportFailure, hstarted]

theorem wakes_step_iff (hs : s.Wakes) {c : ClientCall} (hc : s.step c = some s') :
    s'.Wakes ↔ s.KeepsWakeUp c := by
  cases c with
  | start params env =>
    simp only [step] at hc
    split at hc
    · cases hc
    · cases hc
      rw [start, wakes_connect_iff]
      exact forall_prop_of_true rfl
  | connect env =>
    cases hc
    exact wakes_connect_iff env s
  | close =>
    cases hc
    -- a client that is closed waits for nothing
    have hclosed := Link.not_underWay s.link.close_client
    simp [Wakes, close, hclosed, KeepsWakeUp]
  | event events calls =>
    simp only [step] at hc
    split at hc
    · cases hc
      unfold onEvent KeepsWakeUp
      -- an event that is no disconnection connects the client or leaves its wake-up as it was
      by_cases hdisconnects : Disconnects events
      · rw [if_pos hdisconnects, wakes_onDisconnected_iff]
        exact ⟨fun h _ => h, fun h => h hdisconnects⟩
      · rw [if_neg hdisconnects]
        refine iff_of_true ?_ fun h => absurd h hdisconnects
        split_ifs
        · exact fun _ h => Bool.noConfusion h
        · exact hs
    · cases hc
  | timeout env =>
    simp only [step] at hc
    split at hc
    · rename_i htimers
      cases hc
      unfold onTimeout KeepsWakeUp
      cases hconnected : s.isConnected with
      | true => simp [Wakes]
      | false =>
        -- the timer has fired, so it has to be armed again or another has to be left
        have hlast : s.timers - 1 ≠ 0 ↔ s.timers ≠ 1 := by omega
        simp only [Bool.false_eq_true, not_false_eq_true, if_true, forall_const,
          wakes_connect_iff, hlast]
        rfl
    · cases hc

/-- **The client never gets stuck exactly if no `Connect` or failure leaves it without a
wake-up.** In every state of a run a started client is connected, or a connection is under way,
or a timer is armed, exactly if every call of the run starts a connection or finds or arms a
timer where it has to. -/
theorem wakes_iff {trace : List (EventClient × ClientCall)} {s : EventClient}
    (hrun : Run step {} trace s) :
    ((∀ e ∈ trace, e.1.Wakes) ∧ s.Wakes) ↔ ∀ e ∈ trace, e.1.KeepsWakeUp e.2 :=
  hrun.forall_good_iff (I := fun _ : EventClient => True) trivial (fun _ _ => trivial)
    (fun h => Bool.noConfusion h) fun _ hs hc => wakes_step_iff hs hc

/-- A client that is started, connected, disconnected, and connects again. -/
theorem wakes_reconnected :
    ∃ (trace : List (EventClient × ClientCall)) (s : EventClient), Run step {} trace s ∧
      trace.map (fun e => e.1.timers) = [0, 0, 0, 1] ∧ s.timers = 0 ∧
      (∀ e ∈ trace, e.1.Wakes) ∧ s.Wakes := by
  have hrun : Run step {} _ _ :=
    ((Run.nil.snoc (a := .start {} { attempt := fun _ => {} }) rfl).snoc
      (a := .event 0x80 {}) rfl).snoc (a := .event 0x11 {}) rfl |>.snoc
        (a := .timeout { attempt := fun _ => {} }) rfl
  refine ⟨_, _, hrun, rfl, rfl, (wakes_iff hrun).mpr ?_⟩
  intro e he
  simp only [List.nil_append, List.cons_append, List.mem_cons, List.not_mem_nil, or_false] at he
  rcases he with rfl | rfl | rfl | rfl
  · exact .inl (by decide)
  · exact fun h => absurd h (by decide)
  · exact fun _ _ => .inl ⟨rfl, rfl⟩
  · exact fun _ _ => .inl (by decide)

/-- The first connect fails at once: the client is started, not connected, and nothing can
happen to it by itself. -/
theorem wakes_fails_on_unreachable :
    ∃ s, step {} (.start { address := "127.0.0.1", port := "8080" }
        { attempt := fun _ => { socketConnect := -1 } }) = some s ∧
      s.isStarted = true ∧ ¬ s.Wakes ∧
      (∀ events calls, s.step (.event events calls) = none) ∧
      ∀ env, s.step (.timeout env) = none := by
  refine ⟨_, rfl, rfl, ?_, fun _ _ => rfl, fun _ => rfl⟩
  intro h
  rcases h rfl rfl with ⟨bev, hbev, -⟩ | htimers
  · cases hbev
  · exact htimers rfl

end EventClient

end SampleTools
