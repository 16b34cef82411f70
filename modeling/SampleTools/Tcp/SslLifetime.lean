import SampleTools.Tcp.EventClient

/-!
# The lifetime of SSL objects

A bufferevent owns the SSL object it is made from and releases it when it is freed. The
client keeps its pointer and never sets it to null, so an attempt hands over a live object
exactly if it makes one, and it makes one only as long as the client has none.

`bufferevent_free` is taken to release the SSL object at once. In the source of libevent the release
waits for the end of the callback that is running.

## Main definitions

* `SslOwned`: where the SSL object of a client is
* `OnlyFirst`: no attempt of a `Connect` resolves its address when there is an SSL object
* `EventClient.HandsOverAlive`: the SSL objects handed over were alive

## Main results

* `Link.connectTo_handed`: what an attempt hands over
* `EventClient.handsOverAlive_iff`: when a run hands over live objects only
-/

namespace SampleTools

/-- The SSL objects of a connection are numbered below `made`; the one of the client belongs to
its bufferevent or is released. -/
structure SslOwned (l : Link) : Prop where
  ssl_lt : ∀ ssl, l.ssl = some ssl → ssl < l.made
  client_lt : ∀ bev ssl, l.client = some bev → bev.ssl = some ssl → ssl < l.made
  released_lt : ∀ ssl ∈ l.released, ssl < l.made
  owned : ∀ ssl, l.ssl = some ssl →
    (∃ bev, l.client = some bev ∧ bev.ssl = some ssl) ∨ ssl ∈ l.released

/-- Whatever an attempt resolves, the client has no SSL object then. -/
def OnlyFirst (params : ConnectionParams) : Bool → List Attempt → Prop
  | _, [] => True
  | hasSsl, a :: as =>
    (a.Resolves → hasSsl = false) ∧
      match a.ending params hasSsl with
      | .next hasSsl => OnlyFirst params hasSsl as
      | .nothing => True
      | .started => True

instance decidableOnlyFirst (params : ConnectionParams) :
    ∀ hasSsl as, Decidable (OnlyFirst params hasSsl as)
  | _, [] => isTrue trivial
  | hasSsl, a :: as =>
    match h : a.ending params hasSsl with
    | .next hasSsl' =>
      have := decidableOnlyFirst params hasSsl' as
      decidable_of_iff ((a.Resolves → hasSsl = false) ∧ OnlyFirst params hasSsl' as)
        (by rw [OnlyFirst, h])
    | .nothing => decidable_of_iff (a.Resolves → hasSsl = false) (by rw [OnlyFirst, h]; simp)
    | .started => decidable_of_iff (a.Resolves → hasSsl = false) (by rw [OnlyFirst, h]; simp)

/-- The SSL objects handed over were alive. -/
def Link.HandedAlive (l : Link) : Prop := ∀ h ∈ l.handed, h.2 = true

theorem SslOwned.new : SslOwned {} where
  ssl_lt _ h := nomatch h
  client_lt _ _ h := nomatch h
  released_lt := List.forall_mem_nil _
  owned _ h := nomatch h

namespace Link

variable {params : ConnectionParams} {a : Attempt} {l : Link}

@[simp] theorem close_handed (l : Link) : l.close.handed = l.handed := by
  unfold close
  split <;> rfl

theorem close_owned (h : SslOwned l) : SslOwned l.close := by
  unfold close
  cases hclient : l.client with
  | none => exact h
  | some bev =>
    refine ⟨h.ssl_lt, fun _ _ hbev => (nomatch hbev), ?_, ?_⟩
    · intro ssl hmem
      rcases List.mem_append.mp hmem with hmem | hmem
      · exact h.released_lt ssl hmem
      · exact h.client_lt bev ssl hclient (Option.mem_toList.mp hmem)
    -- what the bufferevent owned is released now
    · intro ssl hssl
      refine .inr (List.mem_append.mpr ?_)
      rcases h.owned ssl hssl with ⟨bev', hbev, hown⟩ | hreleased
      · rw [hclient] at hbev
        cases hbev
        exact .inr (Option.mem_toList.mpr hown)
      · exact .inl hreleased

/-- Making an SSL object keeps the numbers below `made`. -/
theorem prepareSsl_lt (h : SslOwned l) (calls : SslCalls) :
    (∀ ssl, (l.prepareSsl params calls).ssl = some ssl →
      ssl < (l.prepareSsl params calls).made) ∧
    ∀ ssl ∈ (l.prepareSsl params calls).released, ssl < (l.prepareSsl params calls).made := by
  rw [prepareSsl_eq]
  split_ifs
  · refine ⟨?_, fun ssl hmem => Nat.lt_succ_of_lt (h.released_lt ssl hmem)⟩
    rintro ssl ⟨⟩
    exact Nat.lt_succ_self _
  · exact ⟨h.ssl_lt, h.released_lt⟩

/-- An SSL object is handed over alive exactly if there was none before. -/
theorem handOver_handedAlive_iff (hclient : l.client = none) (h : SslOwned l) (calls : SslCalls) :
    (l.prepareSsl params calls).handOver.HandedAlive ↔ l.HandedAlive ∧ l.ssl = none := by
  rw [prepareSsl_eq]
  unfold HandedAlive handOver
  rw [List.forall_mem_append]
  cases hssl : l.ssl with
  | some ssl =>
    -- released, since no bufferevent owns it
    have hreleased : ssl ∈ l.released := by
      rcases h.owned ssl hssl with ⟨bev, hbev, -⟩ | hreleased
      · rw [hclient] at hbev
        cases hbev
      · exact hreleased
    simp [hssl, hreleased]
  | none =>
    have hfresh : l.made ∉ l.released := fun hmem => Nat.lt_irrefl _ (h.released_lt _ hmem)
    split_ifs
    · simp [hfresh]
    · simp [hssl]

/-- What an attempt hands over. -/
theorem connectTo_handed (params : ConnectionParams) (a : Attempt) (hclient : l.client = none)
    (h : SslOwned l) :
    SslOwned (l.connectTo params a).2 ∧
      ((l.connectTo params a).2.HandedAlive ↔
        l.HandedAlive ∧ (a.Resolves → l.ssl = none)) := by
  have hfree := @handOver_handedAlive_iff params l hclient h a.sslCalls
  rcases connectTo_cases params a l with ⟨hres, heq⟩ | ⟨hres, hlacks, heq⟩ |
    ⟨hres, hlacks, ⟨hopens, heq⟩ | ⟨hopens, heq⟩⟩
  · rw [heq]
    exact ⟨h, (and_iff_left fun hres' => absurd hres' hres).symm⟩
  · have hnone : l.ssl = none := Option.isNone_iff_eq_none.mp (by simpa using hlacks.2.1)
    rw [heq]
    exact ⟨h, (and_iff_left fun _ => hnone).symm⟩
  · obtain ⟨hssl, hreleased⟩ := @prepareSsl_lt params l h a.sslCalls
    rw [heq, forall_prop_of_true hres]
    refine ⟨⟨hssl, ?_, hreleased, ?_⟩, hfree⟩
    · rintro bev ssl ⟨⟩ hown
      exact hssl ssl hown
    · intro ssl hown
      exact .inl ⟨_, rfl, hown⟩
  · obtain ⟨hssl, hreleased⟩ := @prepareSsl_lt params l h a.sslCalls
    rw [heq, forall_prop_of_true hres]
    refine ⟨⟨hssl, fun _ _ hbev => (nomatch hbev), ?_, ?_⟩, hfree⟩
    · intro ssl hmem
      rcases List.mem_append.mp hmem with hmem | hmem
      · exact hreleased ssl hmem
      · exact hssl ssl (Option.mem_toList.mp hmem)
    · intro ssl hown
      exact .inr (List.mem_append_right _ (Option.mem_toList.mpr hown))

/-- The attempts of a `Connect` hand over live objects exactly if only the first one that gets
an SSL object resolves its address, of those from there on. -/
theorem tryAll_handed (params : ConnectionParams) (as : List Attempt) {l : Link}
    (hclient : l.client = none) (h : SslOwned l) :
    SslOwned (l.tryAll params as).2 ∧
      ((l.tryAll params as).2.HandedAlive ↔
        l.HandedAlive ∧ OnlyFirst params l.ssl.isSome as) := by
  induction as generalizing l with
  | nil => exact ⟨h, (and_iff_left trivial).symm⟩
  | cons a as ih =>
    have hspec := @connectTo_spec params a l hclient
    obtain ⟨howned, halive⟩ := connectTo_handed params a hclient h
    have hnone : (a.Resolves → l.ssl = none) ↔ (a.Resolves → l.ssl.isSome = false) := by
      rw [Option.isSome_eq_false_iff, Option.isNone_iff_eq_none]
    rw [hnone] at halive
    unfold tryAll OnlyFirst
    generalize l.connectTo params a = r at hspec howned halive
    obtain ⟨ret, l'⟩ := r
    cases hend : a.ending params l.ssl.isSome with
    | next hasSsl =>
      simp only [hend] at hspec howned halive ⊢
      obtain ⟨hret, hclient', hssl⟩ := hspec
      -- the loop goes on, with the SSL object this attempt has left to the client
      rw [if_neg hret, ← and_assoc, ← halive, ← hssl]
      exact ih hclient' howned
    | nothing =>
      simp only [hend] at hspec howned halive ⊢
      rw [if_pos hspec.1, and_true]
      exact ⟨howned, halive⟩
    | started =>
      simp only [hend] at hspec howned halive ⊢
      rw [if_pos hspec.1, and_true]
      exact ⟨howned, halive⟩

end Link

namespace EventClient

/-- Every SSL object handed over so far was alive. -/
def HandsOverAlive (s : EventClient) : Prop := s.link.HandedAlive

/-- No attempt of a `Connect` resolves its address when the client has an SSL object. -/
def ResolvesFirst (env : ConnectEnv) (s : EventClient) : Prop :=
  OnlyFirst s.params s.link.ssl.isSome (s.attempts env)

instance (env : ConnectEnv) (s : EventClient) : Decidable (s.ResolvesFirst env) :=
  inferInstanceAs (Decidable (OnlyFirst _ _ _))

/-- What a call needs: the `Connect` it makes, if any. -/
def KeepsAlive (s : EventClient) : ClientCall → Prop
  | .start params env => { s with isStarted := true, params := params }.ResolvesFirst env
  | .connect env => s.ResolvesFirst env
  | .close => True
  | .event _ _ => True
  | .timeout env => s.isConnected = false → s.ResolvesFirst env

variable {s s' : EventClient}

theorem handsOverAlive_new : HandsOverAlive {} := by
  intro h hmem
  cases hmem

theorem connect_handed (env : ConnectEnv) (h : SslOwned s.link) :
    SslOwned (s.connect env).2.link ∧
      ((s.connect env).2.HandsOverAlive ↔ s.HandsOverAlive ∧ s.ResolvesFirst env) := by
  obtain ⟨howned, halive⟩ := Link.tryAll_handed s.params (s.attempts env) s.link.close_client
    (Link.close_owned h)
  rw [Link.close_ssl] at halive
  unfold HandsOverAlive
  rw [(connect_reaches env s).link, halive, Link.HandedAlive, Link.close_handed]
  exact ⟨howned, Iff.rfl⟩

/-- An event changes neither the SSL objects nor who owns them. -/
theorem onEvent_handed (events : UInt16) (calls : TimerCalls) (h : SslOwned s.link) :
    SslOwned (s.onEvent events calls).link ∧
      (s.onEvent events calls).link.handed = s.link.handed := by
  have hreported : SslOwned s.reportFailure.link := by
    refine ⟨h.ssl_lt, ?_, h.released_lt, ?_⟩
    · intro bev ssl hbev hown
      obtain ⟨old, hold, rfl⟩ := Option.map_eq_some_iff.mp hbev
      exact h.client_lt old ssl hold hown
    · intro ssl hssl
      refine (h.owned ssl hssl).imp_left ?_
      rintro ⟨bev, hbev, hown⟩
      exact ⟨_, Option.map_eq_some_iff.mpr ⟨bev, hbev, rfl⟩, hown⟩
  have htimer : ∀ s : EventClient, (s.onDisconnected calls).link = s.link := by
    intro s
    unfold onDisconnected reConnect
    split_ifs <;> rfl
  unfold onEvent
  split_ifs
  · rw [htimer]
    exact ⟨hreported, rfl⟩
  · exact ⟨h, rfl⟩
  · exact ⟨h, rfl⟩

theorem step_handed (h : SslOwned s.link) {c : ClientCall} (hc : s.step c = some s') :
    SslOwned s'.link ∧ (s'.HandsOverAlive ↔ s.HandsOverAlive ∧ s.KeepsAlive c) := by
  cases c with
  | start params env =>
    simp only [step] at hc
    split at hc
    · cases hc
    · cases hc
      exact connect_handed env h
  | connect env =>
    cases hc
    exact connect_handed env h
  | close =>
    cases hc
    refine ⟨Link.close_owned h, ?_⟩
    unfold HandsOverAlive close Link.HandedAlive
    rw [Link.close_handed]
    exact (and_iff_left trivial).symm
  | event events calls =>
    simp only [step] at hc
    split at hc
    · cases hc
      obtain ⟨howned, hhanded⟩ := onEvent_handed events calls h
      refine ⟨howned, ?_⟩
      unfold HandsOverAlive Link.HandedAlive
      rw [hhanded]
      exact (and_iff_left trivial).symm
    · cases hc
  | timeout env =>
    simp only [step] at hc
    split at hc
    · cases hc
      unfold onTimeout KeepsAlive
      cases hconnected : s.isConnected with
      | true => simpa [HandsOverAlive] using h
      | false =>
        -- the timer changes nothing that `Connect` hands over
        simp only [Bool.false_eq_true, not_false_eq_true, if_true, forall_const]
        exact @connect_handed { s with timers := s.timers - 1 } env h
    · cases hc

/-- **SSL objects are handed over alive exactly if only the first one is handed over.** In a
run, every SSL object passed to `bufferevent_openssl_socket_new` is alive at that moment exactly
if no attempt of a `Connect` resolves its address once the client has an SSL object. -/
theorem handsOverAlive_iff {trace : List (EventClient × ClientCall)} {s : EventClient}
    (hrun : Run step {} trace s) :
    ((∀ e ∈ trace, e.1.HandsOverAlive) ∧ s.HandsOverAlive) ↔
      ∀ e ∈ trace, e.1.KeepsAlive e.2 :=
  hrun.forall_good_iff (I := fun s : EventClient => SslOwned s.link) SslOwned.new
    (fun h hc => (step_handed h hc).1) handsOverAlive_new
    fun h hs hc => (step_handed h hc).2.trans (and_iff_right hs)

/-- A client whose default address does not resolve at first, and connects then. -/
theorem handsOverAlive_connected :
    ∃ (trace : List (EventClient × ClientCall)) (s : EventClient), Run step {} trace s ∧
      s.isConnected = true ∧ s.link.handed = [(0, true)] ∧
      (∀ e ∈ trace, e.1.HandsOverAlive) ∧ s.HandsOverAlive := by
  have hrun : Run step {} _ _ :=
    ((Run.nil.snoc (a := .start { isSsl := true } { attempt := fun _ => { getaddrinfo := -2 } })
      rfl).snoc (a := .connect { attempt := fun _ => {} }) rfl).snoc (a := .event 0x80 {}) rfl
  refine ⟨_, _, hrun, rfl, rfl, (handsOverAlive_iff hrun).mpr ?_⟩
  intro e he
  simp only [List.nil_append, List.cons_append, List.mem_cons, List.not_mem_nil, or_false] at he
  rcases he with rfl | rfl | rfl
  · exact show ResolvesFirst _ _ by decide
  · exact show ResolvesFirst _ _ by decide
  · trivial

/-- Connected, disconnected, connected again by the timer: the second bufferevent is made from
the SSL object that was released with the first. -/
theorem handsOverAlive_fails_on_reconnect :
    ∃ (trace : List (EventClient × ClientCall)) (s : EventClient), Run step {} trace s ∧
      trace.map (fun e => e.1.link.handed.length) = [0, 1, 1, 1] ∧
      s.params.isSsl = true ∧ s.link.released = [0] ∧ s.link.handed = [(0, true), (0, false)] ∧
      ¬ s.HandsOverAlive := by
  have hrun : Run step {} _ _ :=
    ((Run.nil.snoc (a := .start { isSsl := true } { attempt := fun _ => {} }) rfl).snoc
      (a := .event 0x80 {}) rfl).snoc (a := .event 0x11 {}) rfl |>.snoc
        (a := .timeout { attempt := fun _ => {} }) rfl
  refine ⟨_, _, hrun, rfl, rfl, rfl, rfl, fun h => ?_⟩
  exact absurd (h (0, false) (by decide)) Bool.false_ne_true

end EventClient

end SampleTools
