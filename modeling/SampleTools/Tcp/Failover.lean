import Mathlib.Data.List.Nodup
import SampleTools.Tcp.EventClient

/-!
# Which hosts are tried

`Connect` goes through the hosts of etcd from the first one on, and passes over the one it has
connected to last: a hot standby takes over from it. While the attempts are accepted at once and
the connections drop later, the first two hosts take turns.

## Main definitions

* `EventClient.tried`: the hosts of etcd that a `Connect` tries
* `EventClient.Accepted`: etcd names the hosts, and the attempt is accepted
* `connects`, `triedIn`: the `Connect`s of a run, and the hosts they try

## Main results

* `EventClient.connect_accepted`: an accepted `Connect` tries one host
* `EventClient.find_next`: which one
* `EventClient.failover_tries`: the hosts that a run tries
-/

namespace SampleTools

namespace EventClient

/-- The hosts the loop of `Connect` calls `_connect` for, after `n` attempts. -/
def triedHosts (attempt : ℕ → Attempt) (hosts : List Host) :
    List Host → ℕ → EventClient → List Host
  | [], _, _ => []
  | p :: rest, n, s =>
    if s.Skips hosts p then triedHosts attempt hosts rest n s
    else
      let (ret, link) := s.link.connectTo s.params (attempt n)
      if ret = 0 then [p] else p :: triedHosts attempt hosts rest (n + 1) { s with link := link }

/-- The hosts of etcd that `Connect` tries. -/
def tried (env : ConnectEnv) (s : EventClient) : List Host :=
  triedHosts env.attempt (s.etcdHosts env) (s.etcdHosts env) 0 s.close

/-- Etcd names these hosts to a `Connect`, and its first attempt is accepted. -/
structure Accepted (hosts : List Host) (env : ConnectEnv) (s : EventClient) : Prop where
  usesEtcd : s.UsesEtcd
  named : getMasterHostFromEtcd env.getPrefix = some hosts
  accepts : (s.link.close.connectTo s.params (env.attempt 0)).1 = 0

instance (hosts : List Host) (env : ConnectEnv) (s : EventClient) :
    Decidable (s.Accepted hosts env) :=
  decidable_of_iff (s.UsesEtcd ∧ getMasterHostFromEtcd env.getPrefix = some hosts ∧
      (s.link.close.connectTo s.params (env.attempt 0)).1 = 0)
    ⟨fun h => ⟨h.1, h.2.1, h.2.2⟩, fun h => ⟨h.1, h.2, h.3⟩⟩

variable {hosts : List Host} {env : ConnectEnv} {s s' : EventClient} {p : Host}

/-- An accepted attempt ends the loop at the first host that is not passed over. -/
theorem connectHosts_accepted {attempt : ℕ → Attempt} {rest : List Host} {n : ℕ}
    (haccepts : (s.link.connectTo s.params (attempt n)).1 = 0)
    (hp : rest.find? (fun p => ¬ s.Skips hosts p) = some p) :
    triedHosts attempt hosts rest n s = [p] ∧
      ∃ s', connectHosts attempt hosts rest n s = (true, n + 1, s') ∧ s'.etcdLastHosts = p := by
  induction rest with
  | nil => cases hp
  | cons q rest ih =>
    unfold triedHosts connectHosts
    by_cases hskip : s.Skips hosts q
    · rw [List.find?_cons_of_neg (by simpa using hskip)] at hp
      rw [if_pos hskip, if_pos hskip]
      exact ih hp
    · rw [List.find?_cons_of_pos (by simpa using hskip)] at hp
      cases hp
      rw [if_neg hskip, if_neg hskip]
      dsimp only
      rw [if_pos haccepts, if_pos haccepts]
      exact ⟨rfl, _, rfl, rfl⟩

/-- An accepted `Connect` tries one host, and notes it. -/
theorem connect_accepted (h : s.Accepted hosts env)
    (hp : hosts.find? (fun p => ¬ s.Skips hosts p) = some p) :
    s.tried env = [p] ∧ (s.connect env).2.etcdLastHosts = p := by
  have hetcd : s.close.UsesEtcd := h.usesEtcd
  have hhosts : s.etcdHosts env = hosts := by
    rw [etcdHosts, if_pos h.usesEtcd, h.named]
    rfl
  refine ⟨?_, ?_⟩
  · rw [tried, hhosts]
    exact (connectHosts_accepted (s := s.close) h.accepts hp).1
  · unfold connect
    dsimp only
    rw [if_pos hetcd, h.named]
    cases getFullEndpointsEtcd env.memberList with
    | none =>
      obtain ⟨-, s', hloop, hlast⟩ := connectHosts_accepted (s := s.close) h.accepts hp
      dsimp only
      rw [connectAmong, hloop]
      exact hlast
    | some fullEndpoints =>
      obtain ⟨-, s', hloop, hlast⟩ := connectHosts_accepted
        (s := { s.close with params.etcdEndpoints := fullEndpoints }) h.accepts hp
      dsimp only
      rw [connectAmong, hloop]
      exact hlast

/-! ## Taking turns -/

/-- The host after `last`: the first one, or the one behind it. -/
def nextHost (first : Host) (rest : List Host) (last : Host) : Host :=
  if last = first then rest.headD first else first

variable {first last : Host} {rest : List Host}

theorem nextHost_mem (first : Host) (rest : List Host) (last : Host) :
    nextHost first rest last ∈ (first :: rest).take 2 := by
  unfold nextHost
  split_ifs
  · cases rest <;> simp
  · exact List.mem_cons_self

/-- The first two hosts are the last one and the next. -/
theorem eq_or_eq_nextHost (hlast : last ∈ (first :: rest).take 2)
    (hp : p ∈ (first :: rest).take 2) : p = last ∨ p = nextHost first rest last := by
  unfold nextHost
  cases rest with
  | nil =>
    left
    rw [List.mem_singleton.mp hlast, List.mem_singleton.mp hp]
  | cons second rest =>
    have htwo : ∀ {q}, q ∈ (first :: second :: rest).take 2 ↔ q = first ∨ q = second := by simp
    rcases htwo.mp hp with rfl | rfl
    · by_cases heq : last = p
      · exact .inl heq.symm
      · exact .inr (if_neg heq).symm
    · rcases htwo.mp hlast with rfl | rfl
      · exact .inr (if_pos rfl).symm
      · exact .inl rfl

/-- The first host that is not passed over. -/
theorem find_next (hnodup : (first :: rest).Nodup) (s : EventClient) :
    (first :: rest).find? (fun p => ¬ s.Skips (first :: rest) p) =
      some (nextHost first rest s.etcdLastHosts) := by
  unfold nextHost
  cases rest with
  | nil =>
    rw [List.find?_cons_of_pos (by simp [Skips])]
    simp
  | cons second rest =>
    by_cases heq : s.etcdLastHosts = first
    · have hne : first ≠ second := by
        rintro rfl
        exact (List.nodup_cons.mp hnodup).1 List.mem_cons_self
      rw [List.find?_cons_of_neg (by simp [Skips, heq]),
        List.find?_cons_of_pos (by simp [Skips, heq, hne]), if_pos heq]
      rfl
    · rw [List.find?_cons_of_pos (by simp [Skips, heq]), if_neg heq]

end EventClient

/-! ## Runs -/

open EventClient

/-- The `Connect` that a call makes, with the client it is made for. -/
def ClientCall.connects (s : EventClient) : ClientCall → Option (ConnectEnv × EventClient)
  | .start params env => some (env, { s with isStarted := true, params := params })
  | .connect env => some (env, s)
  | .timeout env => if ¬ s.isConnected then some (env, { s with timers := s.timers - 1 }) else none
  | _ => none

/-- How many `Connect`s a run makes. -/
def connectsIn (trace : List (EventClient × ClientCall)) : ℕ :=
  trace.countP fun e => (e.2.connects e.1).isSome

/-- The hosts of etcd that a run tries. -/
def triedIn (trace : List (EventClient × ClientCall)) : List Host :=
  trace.flatMap fun e => (e.2.connects e.1).elim [] fun c => c.2.tried c.1

namespace EventClient

theorem onEvent_etcdLastHosts (events : UInt16) (calls : TimerCalls) (s : EventClient) :
    (s.onEvent events calls).etcdLastHosts = s.etcdLastHosts := by
  unfold onEvent onDisconnected reConnect
  split_ifs <;> rfl

/-- A call that makes no `Connect` leaves the last host as it was. -/
theorem step_of_connects_eq_none {c : ClientCall} (hc : c.connects s = none)
    (hs : s.step c = some s') : s'.etcdLastHosts = s.etcdLastHosts := by
  cases c with
  | start => cases hc
  | connect => cases hc
  | close =>
    cases hs
    rfl
  | event events calls =>
    rw [EventClient.step] at hs
    split_ifs at hs
    cases hs
    exact onEvent_etcdLastHosts events calls s
  | timeout env =>
    rw [ClientCall.connects] at hc
    rw [EventClient.step] at hs
    split_ifs at hc with hconnected
    split_ifs at hs
    cases hs
    rw [onTimeout]
    dsimp only
    rw [if_neg (not_not.mpr hconnected)]

theorem step_of_connects_eq_some {c : ClientCall} {s₁ : EventClient}
    (hc : c.connects s = some (env, s₁)) (hs : s.step c = some s') :
    s' = (s₁.connect env).2 ∧ s₁.etcdLastHosts = s.etcdLastHosts := by
  cases c with
  | start params env' =>
    cases hc
    rw [EventClient.step] at hs
    split_ifs at hs
    cases hs
    exact ⟨rfl, rfl⟩
  | connect env' =>
    cases hc
    cases hs
    exact ⟨rfl, rfl⟩
  | timeout env' =>
    rw [ClientCall.connects] at hc
    rw [EventClient.step] at hs
    split_ifs at hc with hconnected
    cases hc
    split_ifs at hs
    cases hs
    exact ⟨if_pos hconnected, rfl⟩
  | close => cases hc
  | event => cases hc

/-- The first two hosts take turns. -/
structure TakesTurns (first : Host) (rest : List Host) (trace : List (EventClient × ClientCall))
    (s : EventClient) : Prop where
  mem : ∀ p ∈ triedIn trace, p ∈ (first :: rest).take 2
  last : 1 ≤ connectsIn trace → s.etcdLastHosts ∈ triedIn trace
  both : 2 ≤ connectsIn trace → ∀ p ∈ (first :: rest).take 2, p ∈ triedIn trace

theorem TakesTurns.step {trace : List (EventClient × ClientCall)} {c : ClientCall}
    (h : TakesTurns first rest trace s) (hnodup : (first :: rest).Nodup)
    (hc : ∀ e ∈ c.connects s, e.2.Accepted (first :: rest) e.1) (hs : s.step c = some s') :
    TakesTurns first rest (trace ++ [(s, c)]) s' := by
  cases hconnects : c.connects s with
  | none =>
    have htried : triedIn (trace ++ [(s, c)]) = triedIn trace := by
      simp [triedIn, hconnects]
    have hcount : connectsIn (trace ++ [(s, c)]) = connectsIn trace := by
      simp [connectsIn, hconnects]
    have hlast := step_of_connects_eq_none hconnects hs
    exact ⟨htried ▸ h.mem, by rw [hcount, htried, hlast]; exact h.last,
      by rw [hcount, htried]; exact h.both⟩
  | some e =>
    obtain ⟨env, s₁⟩ := e
    obtain ⟨rfl, hlast⟩ := step_of_connects_eq_some hconnects hs
    obtain ⟨htried₁, hlast₁⟩ := connect_accepted (hc _ hconnects) (find_next hnodup s₁)
    rw [hlast] at htried₁ hlast₁
    have htried : triedIn (trace ++ [(s, c)]) =
        triedIn trace ++ [nextHost first rest s.etcdLastHosts] := by
      simp [triedIn, hconnects, htried₁]
    have hcount : connectsIn (trace ++ [(s, c)]) = connectsIn trace + 1 := by
      simp [connectsIn, hconnects]
    constructor
    · intro p hp
      rw [htried] at hp
      rcases List.mem_append.mp hp with hp | hp
      · exact h.mem p hp
      · rw [List.mem_singleton.mp hp]
        exact nextHost_mem ..
    · intro _
      rw [htried, hlast₁]
      exact List.mem_append_right _ List.mem_cons_self
    · intro htwo p hp
      rw [hcount] at htwo
      -- the host before and the next one are the two that take turns
      have hbefore := h.last (by omega)
      rw [htried]
      rcases eq_or_eq_nextHost (h.mem _ hbefore) hp with rfl | rfl
      · exact List.mem_append_left _ hbefore
      · exact List.mem_append_right _ List.mem_cons_self

/-- **The hosts that a client tries.** While etcd names the same hosts and the attempts are
accepted, two `Connect`s in a row, or one if there is one host only, have tried the first two
hosts, and no `Connect` tries another. -/
theorem failover_tries {s₀ : EventClient} {trace : List (EventClient × ClientCall)}
    (hnodup : (first :: rest).Nodup) (hrun : Run EventClient.step s₀ trace s)
    (hall : ∀ e ∈ trace, ∀ c ∈ e.2.connects e.1, c.2.Accepted (first :: rest) c.1)
    (hcount : min (first :: rest).length 2 ≤ connectsIn trace) :
    (∀ p ∈ (first :: rest).take 2, p ∈ triedIn trace) ∧
      ∀ p ∈ triedIn trace, p ∈ (first :: rest).take 2 := by
  have hturns : TakesTurns first rest trace s := by
    clear hcount
    induction hrun with
    | nil => exact ⟨nofun, nofun, nofun⟩
    | snoc _ hs ih =>
      rw [List.forall_mem_append, List.forall_mem_singleton] at hall
      exact (ih hall.1).step hnodup hall.2 hs
  refine ⟨?_, hturns.mem⟩
  cases rest with
  | nil =>
    have hlast := hturns.last hcount
    have hfirst := List.mem_singleton.mp (hturns.mem _ hlast)
    intro p hp
    rw [List.mem_singleton.mp hp, ← hfirst]
    exact hlast
  | cons second rest => exact hturns.both (by simpa using hcount)

/-- A client connects, loses the connection and connects again, to the other host. -/
theorem failover_tries_two_hosts :
    ∃ (trace : List (EventClient × ClientCall)) (s : EventClient),
      Run EventClient.step {} trace s ∧ connectsIn trace = 2 ∧
        (∀ p ∈ [("a", "1"), ("b", "1")], p ∈ triedIn trace) ∧
        ∀ p ∈ triedIn trace, p ∈ [("a", "1"), ("b", "1")] := by
  let env : ConnectEnv :=
    { getPrefix := some ["key", "a:1", "key", "b:1"], attempt := fun _ => {} }
  have hrun : Run EventClient.step {} _ _ :=
    Run.nil.snoc (a := .start { etcdEndpoints := "e", hostkey := "h" } env) rfl
    |>.snoc (a := .event 0x80 {}) rfl |>.snoc (a := .event 0x10 {}) rfl
    |>.snoc (a := .timeout env) rfl
  exact ⟨_, _, hrun, by decide,
    failover_tries (by decide : ([("a", "1"), ("b", "1")] : List Host).Nodup) hrun (by decide)
      (by decide)⟩

/-- Of three hosts the third is not tried. -/
theorem failover_leaves_third :
    ∃ (trace : List (EventClient × ClientCall)) (s : EventClient),
      Run EventClient.step {} trace s ∧ connectsIn trace = 3 ∧
        (∀ e ∈ trace, ∀ c ∈ e.2.connects e.1,
          c.2.Accepted [("a", "1"), ("b", "1"), ("c", "1")] c.1) ∧
        triedIn trace = [("a", "1"), ("b", "1"), ("a", "1")] := by
  let env : ConnectEnv :=
    { getPrefix := some ["key", "a:1", "key", "b:1", "key", "c:1"], attempt := fun _ => {} }
  have hrun : Run EventClient.step {} _ _ :=
    Run.nil.snoc (a := .start { etcdEndpoints := "e", hostkey := "h" } env) rfl
    |>.snoc (a := .event 0x10 {}) rfl |>.snoc (a := .timeout env) rfl
    |>.snoc (a := .event 0x10 {}) rfl |>.snoc (a := .timeout env) rfl
  exact ⟨_, _, hrun, by decide, by decide, by decide⟩

end EventClient

end SampleTools
