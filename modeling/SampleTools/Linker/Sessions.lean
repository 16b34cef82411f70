import SampleTools.Library.Numbering
import SampleTools.Linker.ServerEnd

/-!
# Sessions

A login without a valid session id gets the next value of a 64-bit counter; a login with
one gets its own id back. The ids in the answers sent so far, the session table and the
values the counter has taken are the same, so a message that passes the gate carries an
id some answer gave out. The counter wraps: an answer's id is new exactly as long as not
all of its values have been given out. They never are: the table is a `std::unordered_set`,
which cannot hold as many as 2^64 ids, and an insertion that fails throws before the answer
is sent.

## Main definitions

* `carriedId`: the session id a message carries
* `ServerEnd.issued`: the session ids in the login answers so far
* `Sessions`: the invariant

## Main results

* `Sessions.handle`, `Sessions.of_run`: the invariant holds in every run
* `Sessions.fresh_iff`: when the next id is new
* `session_gate`: what a message does to the sessions
-/

namespace SampleTools

open LittleEndian Memory

/-- The session id a message carries. -/
def carriedId (msg : QtpMsg) : Option Int64 :=
  (msg.getOption OptionId.sessionId.toI64).map fun r => i64Of r.optionBuf

/-- A session id, if there is one, has a payload of eight bytes. -/
def SessionFits (msg : QtpMsg) : Prop :=
  ∀ r, msg.getOption OptionId.sessionId.toI64 = some r → r.optionBuf.length = 8

/-- The messages a call brings have session ids of eight bytes. -/
def ServerCall.SessionFits : ServerCall → Prop
  | .frame _ env f => SampleTools.SessionFits (QtpMsg.ofFrame env.past f)
  | _ => True

/-- The session id of a login answer. -/
def Output.issued : Output → Option Int64
  | .loginAns _ answer _ => carriedId answer
  | _ => none

/-- The session ids in the login answers sent so far. -/
def ServerEnd.issued (s : ServerEnd) : List Int64 := s.outputs.filterMap Output.issued

theorem carriedId_of_opts {msg msg' : QtpMsg} (h : msg.opts = msg'.opts) :
    carriedId msg = carriedId msg' := by
  rw [carriedId, carriedId, QtpMsg.getOption, QtpMsg.getOption, h]

theorem carriedId_set {msg : QtpMsg} {opts : OptionMap} {id : Int64}
    (h : msg.opts = opts.set (.ofInt64 OptionId.sessionId.toU16 id)) : carriedId msg = some id := by
  have hget : (opts.set (.ofInt64 OptionId.sessionId.toU16 id)).get OptionId.sessionId.toI64 =
      some (.ofInt64 OptionId.sessionId.toU16 id) :=
    OptionMap.get_set_self (OptionRequest.ofInt64 OptionId.sessionId.toU16 id)
  rw [carriedId, QtpMsg.getOption, h, hget, Option.map_some]
  exact congrArg some (i64Of_i64Bytes id)

theorem isLogin_iff {env : Env} {msg : QtpMsg} {s : ServerEnd} (hfit : SessionFits msg) :
    s.isLogin env msg = true ↔ ∃ id, carriedId msg = some id ∧ id ∈ s.sessionLogined := by
  unfold ServerEnd.isLogin carriedId
  cases h : msg.getOption OptionId.sessionId.toI64 with
  | none => simp
  | some r =>
    -- the eight bytes read are the whole payload
    have hpeek : peekN env.pastOption r.optionBuf 0 8 = r.optionBuf := by
      rw [peekN_eq_take_drop (by rw [hfit r h]), List.drop_zero, ← hfit r h, List.take_length]
    simp [hpeek]

/-! ## The counter and the table -/

theorem int64_ofNat_eq_iff (i j : ℕ) :
    Int64.ofNat i = Int64.ofNat j ↔ i % 2 ^ 64 = j % 2 ^ 64 := by
  rw [← Int64.toBitVec_inj, Int64.toBitVec_ofNat', Int64.toBitVec_ofNat', ← BitVec.toNat_inj,
    BitVec.toNat_ofNat, BitVec.toNat_ofNat]

/-- The answers so far, the session table, and the `n` values the counter has taken. -/
structure Sessions (s : ServerEnd) (n : ℕ) : Prop where
  issued : ∀ id, id ∈ s.issued ↔ id ∈ s.sessionLogined
  counter : s.curSessionId = Int64.ofNat n
  taken : WrapCounter.Taken Int64.ofNat n s.sessionLogined

theorem Sessions.empty : Sessions {} 0 where
  issued id := by simp [ServerEnd.issued]
  counter := rfl
  taken := WrapCounter.taken_zero

namespace Sessions

variable {s s' : ServerEnd} {n : ℕ}

theorem next_eq (h : Sessions s n) : s.curSessionId + 1 = Int64.ofNat (n + 1) := by
  rw [h.counter, Int64.ofNat_add]
  rfl

theorem toFinset_issued (h : Sessions s n) : s.issued.toFinset = s.sessionLogined := by
  ext id
  rw [List.mem_toFinset, h.issued]

/-- The id of the next new session is new as long as there is one. -/
theorem fresh_iff (h : Sessions s n) :
    s.curSessionId + 1 ∉ s.issued ↔ s.issued.toFinset.card < 2 ^ 64 := by
  rw [h.issued, h.toFinset_issued, h.next_eq]
  exact h.taken.next_fresh_iff int64_ofNat_eq_iff (Nat.two_pow_pos 64)

theorem isLogin_iff_issued (h : Sessions s n) (env : Env) {msg : QtpMsg}
    (hfit : SessionFits msg) :
    s.isLogin env msg = true ↔ ∃ id, carriedId msg = some id ∧ id ∈ s.issued := by
  simp only [isLogin_iff hfit, h.issued]

/-- Outputs without a session id change nothing. -/
theorem of_eq (h : Sessions s n) (hissued : s'.issued = s.issued)
    (hlogined : s'.sessionLogined = s.sessionLogined) (hcur : s'.curSessionId = s.curSessionId) :
    Sessions s' n :=
  ⟨fun id => by rw [hissued, hlogined, h.issued], hcur ▸ h.counter, hlogined ▸ h.taken⟩

theorem issued_emit (s : ServerEnd) (o : Output) :
    (s.emit o).issued = s.issued ++ o.issued.toList := by
  rw [ServerEnd.issued, ServerEnd.emit_outputs, List.filterMap_append, ServerEnd.issued]
  cases h : o.issued <;> simp [h]

theorem emit_none (h : Sessions s n) {o : Output} (ho : o.issued = none) :
    Sessions (s.emit o) n :=
  h.of_eq (by rw [issued_emit, ho, Option.toList_none, List.append_nil]) rfl rfl

/-- A login answer with an id of the table. -/
theorem emit_known (h : Sessions s n) {o : Output} {id : Int64} (ho : o.issued = some id)
    (hid : id ∈ s.sessionLogined) : Sessions (s.emit o) n := by
  refine ⟨fun i => ?_, h.counter, h.taken⟩
  rw [issued_emit, ho, Option.toList_some, List.mem_append, List.mem_singleton, h.issued,
    ServerEnd.emit_sessionLogined]
  exact ⟨fun hi => hi.elim (fun hi => hi) (fun hi => hi ▸ hid), Or.inl⟩

/-- A login answer with the id of a new session. -/
theorem emit_new (h : Sessions s n) {o : Output} (ho : o.issued = some (s.curSessionId + 1)) :
    Sessions (s.openSession.emit o) (n + 1) := by
  refine ⟨fun i => ?_, h.next_eq, ?_⟩
  · have hissued : s.openSession.issued = s.issued := rfl
    rw [issued_emit, ho, Option.toList_some, List.mem_append, List.mem_singleton, hissued,
      h.issued, ServerEnd.emit_sessionLogined, ServerEnd.openSession, Finset.mem_insert, or_comm]
  · have htaken := h.taken.succ
    rwa [← h.next_eq] at htaken

/-- A message keeps the invariant. -/
theorem handle (h : Sessions s n) {msg : QtpMsg} (hfit : SessionFits msg) (hook : Hook)
    (env : Env) (bev : Bev) : ∃ n', Sessions (s.handle hook env bev msg) n' := by
  rcases s.handle_cases hook env bev msg with ⟨answer, frame, heq⟩ |
    ⟨hlogin, answer, frame, hopts, heq⟩ | ⟨-, answer, frame, hopts, heq⟩ | ⟨-, heq⟩ | ⟨-, heq⟩
  · exact ⟨n, heq ▸ h.emit_none rfl⟩
  -- the answer has the options of the request, and so its id
  · obtain ⟨id, hid, hmem⟩ := (isLogin_iff hfit).mp hlogin
    exact ⟨n, heq ▸ h.emit_known ((carriedId_of_opts hopts).trans hid) hmem⟩
  · exact ⟨n + 1, heq ▸ h.emit_new (carriedId_set hopts)⟩
  · exact ⟨n, by rwa [heq]⟩
  · refine ⟨n, heq ▸ (h.emit_none (o := .onMessage bev msg) rfl).of_eq ?_ ?_ ?_⟩
    · rw [ServerEnd.issued, ServerEnd.pushAll_outputs, ServerEnd.issued]
    · rw [ServerEnd.pushAll_sessionLogined]
    · rw [ServerEnd.pushAll_curSessionId]

/-- The loop keeps the invariant: a response is no login answer. -/
theorem onLoop (h : Sessions s n) (begin : IterOrder Bev) (env : Env) :
    Sessions (s.onLoop begin env) n := by
  unfold ServerEnd.onLoop
  split
  · exact h
  · have hpop : ∀ rest, Sessions { s with msgToClients := rest } n := fun _ =>
      h.of_eq rfl rfl rfl
    unfold ServerEnd.handleMsgToClient
    split
    · exact hpop _
    · exact (hpop _).emit_none rfl

theorem onEvent (h : Sessions s n) (bev : Bev) (events : UInt16) :
    Sessions (s.onEvent bev events) n := by
  unfold ServerEnd.onEvent
  split
  · exact h
  · split
    · exact h.of_eq rfl rfl rfl
    · exact h

theorem step (h : Sessions s n) {hook : Hook} {c : ServerCall} (hfit : c.SessionFits)
    (hs : s.step hook c = some s') : ∃ n', Sessions s' n' := by
  cases c with
  | accept bev =>
    cases hs
    exact ⟨n, h.of_eq rfl rfl rfl⟩
  | event bev events =>
    cases hs
    exact ⟨n, h.onEvent bev events⟩
  | frame bev env f =>
    simp only [ServerEnd.step] at hs
    split at hs
    · cases hs
      exact h.handle hfit hook env bev
    · cases hs
  | loop begin env =>
    cases hs
    exact ⟨n, h.onLoop begin env⟩

theorem of_run {hook : Hook} {trace : List (ServerEnd × ServerCall)}
    (hrun : Run (ServerEnd.step hook) {} trace s) (hfit : ∀ e ∈ trace, e.2.SessionFits) :
    ∃ n, Sessions s n := by
  induction hrun with
  | nil => exact ⟨0, .empty⟩
  | snoc _ hs ih =>
    obtain ⟨n, h⟩ := ih fun e he => hfit e (List.mem_append_left _ he)
    exact h.step (hfit _ (List.mem_append_right _ List.mem_cons_self)) hs

end Sessions

/-! ## The gate -/

/-- What a message may do to the sessions: `new` is what the server did with it. -/
structure SessionRule (s s' : ServerEnd) (bev : Bev) (msg : QtpMsg) (new : List Output) :
    Prop where
  /-- What is handed on carries an id of an earlier login answer. -/
  gate : ∀ b m, .onMessage b m ∈ new → b = bev ∧ m = msg ∧
    ∃ id, carriedId msg = some id ∧ id ∈ s.issued
  /-- A login that brings such an id gets it back, and no session is opened. -/
  known : ∀ b answer frame, .loginAns b answer frame ∈ new →
    (∃ id, carriedId msg = some id ∧ id ∈ s.issued) →
      carriedId answer = carriedId msg ∧ s'.sessionLogined = s.sessionLogined ∧
        s'.curSessionId = s.curSessionId
  /-- Another login gets an id no earlier answer carried, as long as there is one. -/
  fresh : ∀ b answer frame, .loginAns b answer frame ∈ new →
    (¬ ∃ id, carriedId msg = some id ∧ id ∈ s.issued) →
      ∃ id, carriedId answer = some id ∧ (id ∉ s.issued ↔ s.issued.toFinset.card < 2 ^ 64)

/-- **Session gate.** After any run, a message on any connection follows the rule. -/
theorem session_gate {hook : Hook} {trace : List (ServerEnd × ServerCall)} {s : ServerEnd}
    (hrun : Run (ServerEnd.step hook) {} trace s) (hfits : ∀ e ∈ trace, e.2.SessionFits)
    (bev : Bev) (env : Env) (f : Frame) (hfit : SessionFits (QtpMsg.ofFrame env.past f)) :
    let msg := QtpMsg.ofFrame env.past f
    let s' := s.handle hook env bev msg
    ∃ new, s'.outputs = s.outputs ++ new ∧ SessionRule s s' bev msg new := by
  intro msg s'
  obtain ⟨n, h⟩ := Sessions.of_run hrun hfits
  have hlogin := h.isLogin_iff_issued env hfit
  rcases s.handle_cases hook env bev msg with ⟨a, fr, heq⟩ | ⟨hin, a, fr, hopts, heq⟩ |
    ⟨hout, a, fr, hopts, heq⟩ | ⟨-, heq⟩ | ⟨hin, heq⟩
  -- a heartbeat
  · refine ⟨[.heartBeatAns bev a fr], congrArg ServerEnd.outputs heq, ?_, ?_, ?_⟩ <;> simp
  -- a login with a valid session
  · refine ⟨[.loginAns bev a fr], congrArg ServerEnd.outputs heq, by simp, ?_, ?_⟩
    · intro b answer frame hmem _
      cases List.mem_singleton.mp hmem
      exact ⟨carriedId_of_opts hopts, (congrArg ServerEnd.sessionLogined heq).trans rfl,
        (congrArg ServerEnd.curSessionId heq).trans rfl⟩
    · intro _ _ _ _ hno
      exact absurd (hlogin.mp hin) hno
  -- a login without one
  · refine ⟨[.loginAns bev a fr], congrArg ServerEnd.outputs heq, by simp, ?_, ?_⟩
    · intro _ _ _ _ hyes
      rw [hlogin.mpr hyes] at hout
      cases hout
    · intro b answer frame hmem _
      cases List.mem_singleton.mp hmem
      exact ⟨_, carriedId_set hopts, h.fresh_iff⟩
  -- a message that is dropped
  · exact ⟨[], by rw [List.append_nil]; exact congrArg ServerEnd.outputs heq, by simp, by simp,
      by simp⟩
  -- a message that is handed on
  · refine ⟨[.onMessage bev msg], ?_, ?_, by simp, by simp⟩
    · exact (congrArg ServerEnd.outputs heq).trans (ServerEnd.pushAll_outputs _)
    · intro b m hmem
      cases List.mem_singleton.mp hmem
      exact ⟨rfl, rfl, hlogin.mp hin⟩

/-- A login without a session id. -/
def loginFrame : Frame := ⟨{ msgtype := 1001 }, [], []⟩

/-- A callback at time zero, with zeros past the ends. -/
def zeroEnv : Env := ⟨fun _ => 0, fun _ => 0, .stored, 0⟩

theorem loginFrame_valid : loginFrame.Valid := ⟨rfl, rfl⟩

theorem loginFrame_getOption (id : Int64) :
    (QtpMsg.ofFrame zeroEnv.past loginFrame).getOption id = none := by
  rw [QtpMsg.getOption, QtpMsg.ofFrame_opts loginFrame_valid (show _ = block [] from rfl)]
  rfl

theorem loginFrame_fits : SessionFits (QtpMsg.ofFrame zeroEnv.past loginFrame) := by
  intro r hr
  rw [loginFrame_getOption] at hr
  cases hr

/-- A second login, after the first one. -/
theorem session_gate_second_login :
    let msg := QtpMsg.ofFrame zeroEnv.past loginFrame
    let s := ({} : ServerEnd).handle (fun _ _ => []) zeroEnv 0 msg
    let s' := s.handle (fun _ _ => []) zeroEnv 1 msg
    ∃ new, s'.outputs = s.outputs ++ new ∧ SessionRule s s' 1 msg new :=
  session_gate (Run.nil.snoc (ServerEnd.step_frame loginFrame_valid _ _ 0 zeroEnv))
    (fun e he => by cases List.mem_singleton.mp he; exact loginFrame_fits)
    1 zeroEnv loginFrame loginFrame_fits

/-- Any number of logins. -/
theorem exists_logins (hook : Hook) (n : ℕ) :
    ∃ trace s, Run (ServerEnd.step hook) {} trace s ∧
      (∀ e ∈ trace, e.2 = .frame 0 zeroEnv loginFrame) ∧ Sessions s n := by
  induction n with
  | zero => exact ⟨[], {}, .nil, by simp, .empty⟩
  | succ n ih =>
    obtain ⟨trace, s, hrun, htrace, h⟩ := ih
    have hout : s.isLogin zeroEnv (QtpMsg.ofFrame zeroEnv.past loginFrame) = false := by
      rw [ServerEnd.isLogin, loginFrame_getOption]
    obtain ⟨answer, frame, hopts, heq⟩ :=
      @ServerEnd.handle_login_of_not_isLogin hook _ 0 _ _ rfl hout
    refine ⟨_, _, hrun.snoc (ServerEnd.step_frame loginFrame_valid hook s 0 zeroEnv), ?_, ?_⟩
    · intro e he
      rcases List.mem_append.mp he with he | he
      · exact htrace e he
      · exact congrArg Prod.snd (List.mem_singleton.mp he)
    · rw [heq]
      exact h.emit_new (carriedId_set hopts)

/-- Without the bound of the table: after 2^64 logins, a login without a session id gets an id that
was issued before. -/
theorem session_id_repeats :
    ∃ trace s, Run (ServerEnd.step fun _ _ => []) {} trace s ∧
      (∀ e ∈ trace, e.2 = .frame 0 zeroEnv loginFrame) ∧
      carriedId (QtpMsg.ofFrame zeroEnv.past loginFrame) = none ∧
      ∃ answer frame id,
        (s.handle (fun _ _ => []) zeroEnv 0 (QtpMsg.ofFrame zeroEnv.past loginFrame)).outputs =
          s.outputs ++ [.loginAns 0 answer frame] ∧
        carriedId answer = some id ∧ id ∈ s.issued := by
  obtain ⟨trace, s, hrun, htrace, h⟩ := exists_logins (fun _ _ => []) (2 ^ 64)
  have hout : s.isLogin zeroEnv (QtpMsg.ofFrame zeroEnv.past loginFrame) = false := by
    rw [ServerEnd.isLogin, loginFrame_getOption]
  obtain ⟨answer, frame, hopts, heq⟩ :=
    @ServerEnd.handle_login_of_not_isLogin (fun _ _ => []) _ 0 _ _ rfl hout
  -- all ids are taken, the next one too
  have hold : s.curSessionId + 1 ∈ s.issued := by
    by_contra hfresh
    rw [h.fresh_iff, h.toFinset_issued, h.taken.card_lt_iff int64_ofNat_eq_iff] at hfresh
    exact Nat.lt_irrefl _ hfresh
  refine ⟨trace, s, hrun, htrace, ?_, answer, frame, _, congrArg ServerEnd.outputs heq,
    carriedId_set hopts, hold⟩
  rw [carriedId, loginFrame_getOption, Option.map_none]

end SampleTools
