import SampleTools.Linker.Network

/-!
# Every client in its own session

A client takes its session id from the answers to logins, puts it into its messages, and the
server trusts the id a message carries. As long as the counter of the server has not gone
round, a client has no id or one the server gave it on one of its connections, no id is given to
two clients, and every message the server hands on carries an id given to the client that
sent it. So no client acts in the session of another, whatever the order of the steps, and
wherever the bytes are cut.

## Main definitions

* `Network.Issued`: an id is in a login answer on a connection of a client
* `Network.Confined`: the invariant of the steps over frames
* `Network.InOwnSession`: what it says about the ends

## Main results

* `Network.Confined.frameStep`: the steps over frames keep it
* `Network.run_in_own_session`: every run over byte streams
-/

namespace SampleTools

open LittleEndian Memory

/-- As long as the counter has not gone round, zero is no session id. -/
theorem Sessions.zero_notMem_issued {s : ServerEnd} {n : ℕ} (h : Sessions s n)
    (hlt : s.issued.length < 2 ^ 64) : (0 : Int64) ∉ s.issued := by
  have hcard := (s.issued.toFinset_card_le).trans_lt hlt
  rw [h.toFinset_issued, h.taken.card_lt_iff int64_ofNat_eq_iff] at hcard
  intro hzero
  obtain ⟨i, hi, hin, heq⟩ := (h.taken 0).mp ((h.issued 0).mp hzero)
  have hmod := (int64_ofNat_eq_iff i 0).mp heq
  rw [Nat.mod_eq_of_lt (show i < 2 ^ 64 by omega), Nat.zero_mod] at hmod
  omega

/-- A turn of the loop adds at most a response. -/
theorem ServerEnd.outputs_onLoop (begin : IterOrder Bev) (env : Env) (s : ServerEnd) :
    ∃ o : Option Output, (s.onLoop begin env).outputs = s.outputs ++ o.toList ∧
      ∀ o' ∈ o, ∃ bev r f, o' = .response bev r f := by
  have hnone : ∀ o' ∈ (none : Option Output), ∃ bev r f, o' = .response bev r f := by
    intro o' ho'
    cases ho'
  unfold onLoop
  split
  · exact ⟨none, (List.append_nil _).symm, hnone⟩
  · unfold handleMsgToClient
    split
    · exact ⟨none, (List.append_nil _).symm, hnone⟩
    · refine ⟨some _, rfl, ?_⟩
      intro o' ho'
      cases ho'
      exact ⟨_, _, _, rfl⟩

namespace TestClient

variable {c : TestClient} {env : AnswerEnv} {msg : QtpMsg}

/-- A login answer with a session id. -/
theorem handle_of_loginAns (hmsg : msg.Plain)
    (htype : msg.head.msgtype = ServerMsgType.loginAns.val) {id : Int64}
    (hid : carriedId msg = some id) :
    c.handle env msg = { c with sessionId := id.toUInt64 } := by
  obtain ⟨r, hr, hread⟩ := Option.map_eq_some_iff.mp hid
  have hlen := hmsg.sessionFits r hr
  -- the eight bytes read are the whole payload
  have hpeek : peekN env.pastOption r.optionBuf 0 8 = r.optionBuf := by
    rw [peekN_eq_take_drop (by rw [hlen]), List.drop_zero, ← hlen, List.take_length]
  rw [handle, if_pos htype, hr]
  dsimp only
  rw [hpeek, hread]

theorem handle_of_ne (htype : msg.head.msgtype ≠ ServerMsgType.loginAns.val) :
    c.handle env msg = c :=
  if_neg htype

end TestClient

namespace Network

variable {ι χ : Type*}

/-- The server gave the client a session id, on one of its connections. -/
def Issued (s : Network ι χ) (i : ι) (id : Int64) : Prop :=
  ∃ bev answer f, .loginAns bev answer f ∈ s.server.outputs ∧ s.owner bev = some i ∧
    carriedId answer = some id

/-- What the client may say its session is. -/
def May (s : Network ι χ) (i : ι) (id : Int64) : Prop := id = 0 ∨ s.Issued i id

theorem Issued.mem {s : Network ι χ} {i : ι} {id : Int64} (h : s.Issued i id) :
    id ∈ s.server.issued := by
  obtain ⟨bev, answer, f, hmem, -, hid⟩ := h
  exact List.mem_filterMap.mpr ⟨_, hmem, hid⟩

/-- No client is in the session of another. -/
structure InOwnSession (s : Network ι χ) : Prop where
  client : ∀ i, (s.client i).sessionId = 0 ∨ s.Issued i (s.client i).sessionId.toInt64
  unique : ∀ i j id, s.Issued i id → s.Issued j id → i = j
  handed : ∀ bev msg, .onMessage bev msg ∈ s.server.outputs →
    ∃ i id, s.owner bev = some i ∧ carriedId msg = some id ∧ s.Issued i id
  fault : ∀ i, (s.client i).fault ≠ some .nullOption

/-- The invariant: the clients, their queues and the frames on their way to the server speak
of no other session. -/
structure Confined (t : Network ι Queues) : Prop where
  link : ∀ i bev, t.link i = some bev → t.owner bev = some i
  client : ∀ i, t.May i (t.client i).sessionId.toInt64
  queue : ∀ i, ∀ e ∈ (t.client i).msgQueue, ∀ past id,
    carriedId (QtpMsg.ofFrame past e.2.frame) = some id → t.May i id
  up : ∀ bev, ∀ f ∈ (t.chan bev).up, ∃ i, t.owner bev = some i ∧
    ∀ past id, carriedId (QtpMsg.ofFrame past f) = some id → t.May i id
  issued : ∀ bev answer f, .loginAns bev answer f ∈ t.server.outputs → ∃ i, t.owner bev = some i
  unique : ∀ i j id, t.Issued i id → t.Issued j id → i = j
  handed : ∀ bev msg, .onMessage bev msg ∈ t.server.outputs →
    ∃ i id, t.owner bev = some i ∧ carriedId msg = some id ∧ t.Issued i id
  fault : ∀ i, (t.client i).fault ≠ some .nullOption

theorem Confined.inOwnSession {t : Network ι Queues} (h : t.Confined) : t.InOwnSession where
  client i := by
    rcases h.client i with hzero | hissued
    · have hback := congrArg Int64.toUInt64 hzero
      rw [UInt64.toUInt64_toInt64] at hback
      exact .inl hback
    · exact .inr hissued
  unique := h.unique
  handed := h.handed
  fault := h.fault

namespace Confined

variable {hook : Hook} {t t' : Network ι Queues}

theorem init : Confined (Network.init {} : Network ι Queues) where
  link i bev h := by cases h
  client i := .inl rfl
  queue i := List.forall_mem_nil _
  up bev := List.forall_mem_nil _
  issued bev answer f h := by cases h
  unique i j id h := by
    obtain ⟨_, _, _, hmem, -⟩ := h
    cases hmem
  handed bev msg h := by cases h
  fault i := by
    intro h
    cases h

section Client

variable [DecidableEq ι]

/-- A client puts messages with its session id into its queue. -/
theorem setClient (h : t.Confined) {i : ι} {c : TestClient} (hadds : (t.client i).Adds c) :
    (t.setClient i c).Confined := by
  refine ⟨h.link, ?_, ?_, h.up, h.issued, h.unique, h.handed, ?_⟩
  · intro j
    by_cases hj : j = i
    · subst hj
      simp only [Network.setClient, Function.update_self]
      rcases hadds.sessionId with hsame | hzero
      · rw [hsame]
        exact h.client j
      · rw [hzero]
        exact .inl rfl
    · simp only [Network.setClient, Function.update_of_ne hj]
      exact h.client j
  · intro j e he past id hid
    by_cases hj : j = i
    · subst hj
      simp only [Network.setClient, Function.update_self] at he
      -- a message is in the queue already, or takes the session id the client has now
      rcases hadds.queue e he with he | hsends
      · exact h.queue j e he past id hid
      · rw [hsends.id past] at hid
        cases hid
        exact h.client j
    · simp only [Network.setClient, Function.update_of_ne hj] at he
      exact h.queue j e he past id hid
  · intro j
    by_cases hj : j = i
    · subst hj
      simp only [Network.setClient, Function.update_self]
      rcases hadds.fault with hsame | hparse
      · rw [hsame]
        exact h.fault j
      · rw [hparse]
        simp
    · simp only [Network.setClient, Function.update_of_ne hj]
      exact h.fault j

/-- A client takes over a session id that was given to it. -/
theorem setSessionId (h : t.Confined) {i : ι} {id : Int64} (hid : t.Issued i id) :
    (t.setClient i { t.client i with sessionId := id.toUInt64 }).Confined := by
  refine ⟨h.link, ?_, ?_, h.up, h.issued, h.unique, h.handed, ?_⟩
  · intro j
    by_cases hj : j = i
    · subst hj
      simp only [Network.setClient, Function.update_self]
      exact .inr hid
    · simp only [Network.setClient, Function.update_of_ne hj]
      exact h.client j
  · intro j e he
    by_cases hj : j = i
    · subst hj
      simp only [Network.setClient, Function.update_self] at he
      exact h.queue j e he
    · simp only [Network.setClient, Function.update_of_ne hj] at he
      exact h.queue j e he
  · intro j
    by_cases hj : j = i
    · subst hj
      simp only [Network.setClient, Function.update_self]
      exact h.fault j
    · simp only [Network.setClient, Function.update_of_ne hj]
      exact h.fault j

end Client

/-- Other frames are on their way. -/
theorem setChan (h : t.Confined) {bev : Bev} {q : Queues} (hup : ∀ f ∈ q.up, ∃ i,
      t.owner bev = some i ∧ ∀ past id, carriedId (QtpMsg.ofFrame past f) = some id → t.May i id) :
    (t.setChan bev q).Confined := by
  refine ⟨h.link, h.client, h.queue, ?_, h.issued, h.unique, h.handed, h.fault⟩
  intro b f hf
  by_cases hb : b = bev
  · subst hb
    simp only [Network.setChan, Function.update_self] at hf
    exact hup f hf
  · simp only [Network.setChan, Function.update_of_ne hb] at hf
    exact h.up b f hf

/-- The server adds at most one output: a login answer with an id that no other client has, or
a message with an id that was given to the client. -/
theorem serve (h : t.Confined) {server : ServerEnd} {o : Option Output}
    (hout : server.outputs = t.server.outputs ++ o.toList)
    (hlogin : ∀ bev answer f, .loginAns bev answer f ∈ o → ∃ i, t.owner bev = some i ∧
      ∀ id, carriedId answer = some id → ∀ j, t.Issued j id → j = i)
    (hhanded : ∀ bev msg, .onMessage bev msg ∈ o →
      ∃ i id, t.owner bev = some i ∧ carriedId msg = some id ∧ t.Issued i id) :
    (t.serve Queues.write server).Confined := by
  have hmem : ∀ o', o' ∈ server.outputs ↔ o' ∈ t.server.outputs ∨ o' ∈ o := by
    intro o'
    rw [hout, List.mem_append, Option.mem_toList, Option.mem_def]
  have hissued : ∀ {i id}, t.Issued i id → (t.serve Queues.write server).Issued i id := by
    rintro i id ⟨bev, answer, f, ho, howner, hid⟩
    exact ⟨bev, answer, f, (hmem _).mpr (.inl ho), howner, hid⟩
  have hmay : ∀ {i id}, t.May i id → (t.serve Queues.write server).May i id := by
    intro i id hid
    exact hid.imp_right hissued
  refine ⟨h.link, fun i => hmay (h.client i),
    fun i e he past id hid => hmay (h.queue i e he past id hid), ?_, ?_, ?_, ?_, h.fault⟩
  · intro bev f hf
    obtain ⟨i, howner, hcarried⟩ := h.up bev f hf
    exact ⟨i, howner, fun past id hid => hmay (hcarried past id hid)⟩
  · intro bev answer f ho
    rcases (hmem _).mp ho with ho | ho
    · exact h.issued bev answer f ho
    · obtain ⟨i, howner, -⟩ := hlogin bev answer f ho
      exact ⟨i, howner⟩
  · -- two answers with the same id: each is an old one or the one that is added
    rintro i j id ⟨bev, answer, f, ho, howner, hid⟩ ⟨bev', answer', f', ho', howner', hid'⟩
    rcases (hmem _).mp ho with ho | ho
    · rcases (hmem _).mp ho' with ho' | ho'
      · exact h.unique i j id ⟨bev, answer, f, ho, howner, hid⟩
          ⟨bev', answer', f', ho', howner', hid'⟩
      · obtain ⟨k, hk, hother⟩ := hlogin bev' answer' f' ho'
        obtain rfl := Option.some.inj (hk.symm.trans howner')
        exact hother id hid' i ⟨bev, answer, f, ho, howner, hid⟩
    · obtain ⟨k, hk, hother⟩ := hlogin bev answer f ho
      obtain rfl := Option.some.inj (hk.symm.trans howner)
      rcases (hmem _).mp ho' with ho' | ho'
      · exact (hother id hid j ⟨bev', answer', f', ho', howner', hid'⟩).symm
      · obtain ⟨rfl, rfl, rfl⟩ := Output.loginAns.inj (Option.mem_unique ho ho')
        exact Option.some.inj (howner.symm.trans howner')
  · intro bev msg ho
    rcases (hmem _).mp ho with ho | ho
    · obtain ⟨i, id, howner, hid, hgiven⟩ := h.handed bev msg ho
      exact ⟨i, id, howner, hid, hissued hgiven⟩
    · obtain ⟨i, id, howner, hid, hgiven⟩ := hhanded bev msg ho
      exact ⟨i, id, howner, hid, hissued hgiven⟩

/-- The server handles a frame that is on its way from a client. -/
theorem handle (h : t.Confined) {n : ℕ} (hsess : Sessions t.server n) {bev : Bev} {f : Frame}
    (hf : f ∈ (t.chan bev).up) (hplain : f.Plain) (env : Env)
    (hlt : t.server.issued.length < 2 ^ 64) {up : List Frame}
    (hup : ∀ f' ∈ up, f' ∈ (t.chan bev).up) :
    ((t.setUp bev up).serve Queues.write
      (t.server.handle hook env bev (QtpMsg.ofFrame env.past f))).Confined := by
  obtain ⟨i, howner, hcarried⟩ := h.up bev f hf
  have hfit := (hplain.received env.past).sessionFits
  have hchan : (t.setUp bev up).Confined := h.setChan fun f' hf' => h.up bev f' (hup f' hf')
  -- a message with a valid session has the id of its client
  have hgate : t.server.isLogin env (QtpMsg.ofFrame env.past f) = true →
      ∃ id, carriedId (QtpMsg.ofFrame env.past f) = some id ∧ t.Issued i id := by
    intro hlogin
    obtain ⟨id, hid, hmem⟩ := (hsess.isLogin_iff_issued env hfit).mp hlogin
    rcases hcarried env.past id hid with rfl | hissued
    · exact absurd hmem (hsess.zero_notMem_issued hlt)
    · exact ⟨id, hid, hissued⟩
  rcases t.server.handle_cases hook env bev (QtpMsg.ofFrame env.past f) with ⟨a, fr, heq⟩ |
    ⟨hlogin, a, fr, hopts, heq⟩ | ⟨-, a, fr, hopts, heq⟩ | ⟨-, heq⟩ | ⟨hlogin, heq⟩
  · rw [heq]
    refine hchan.serve (o := some (.heartBeatAns bev a fr)) rfl ?_ ?_
    · intro b answer f' ho
      cases ho
    · intro b msg ho
      cases ho
  -- the id of the client, once more
  · rw [heq]
    refine hchan.serve (o := some (.loginAns bev a fr)) rfl ?_ ?_
    · intro b answer f' ho
      cases ho
      refine ⟨i, howner, ?_⟩
      intro id hid j hj
      obtain ⟨id', hid', hissued⟩ := hgate hlogin
      rw [carriedId_of_opts hopts, hid'] at hid
      cases hid
      exact h.unique j i _ hj hissued
    · intro b msg ho
      cases ho
  -- an id nobody has
  · rw [heq]
    refine hchan.serve (o := some (.loginAns bev a fr)) rfl ?_ ?_
    · intro b answer f' ho
      cases ho
      refine ⟨i, howner, ?_⟩
      intro id hid j hj
      rw [carriedId_set hopts] at hid
      cases hid
      have hfresh := hsess.fresh_iff.mpr (t.server.issued.toFinset_card_le.trans_lt hlt)
      exact absurd (Issued.mem hj) hfresh
    · intro b msg ho
      cases ho
  · rw [heq]
    refine hchan.serve (o := none) (List.append_nil _).symm ?_ ?_
    · intro b answer f' ho
      cases ho
    · intro b msg ho
      cases ho
  · rw [heq]
    refine hchan.serve (o := some (.onMessage bev (QtpMsg.ofFrame env.past f)))
      (ServerEnd.pushAll_outputs _) ?_ ?_
    · intro b answer f' ho
      cases ho
    · intro b msg ho
      cases ho
      obtain ⟨id, hid, hissued⟩ := hgate hlogin
      exact ⟨i, id, howner, hid, hissued⟩

variable [DecidableEq ι]

theorem baseStep (h : t.Confined) {c : BaseCall ι} (hs : t.baseStep c = some t') :
    t'.Confined := by
  cases c with
  | command i env c =>
    obtain ⟨-, hs⟩ := Option.ite_none_right_eq_some.mp hs
    cases hs
    exact h.setClient (TestClient.sendOnMsgType_spec env .main c.val (by decide) _)
  | raw i env num body =>
    obtain ⟨-, hs⟩ := Option.ite_none_right_eq_some.mp hs
    cases hs
    exact h.setClient (TestClient.rawEnqueue_spec env num body.2 _)
  | connect i bev =>
    obtain ⟨⟨-, hnew⟩, hs⟩ := Option.ite_none_right_eq_some.mp hs
    cases hs
    -- no connection that has an owner changes it
    have howner : ∀ {b j}, t.owner b = some j →
        Function.update t.owner bev (some i) b = some j := by
      intro b j hb
      have hne : b ≠ bev := by
        rintro rfl
        rw [hnew] at hb
        cases hb
      rw [Function.update_of_ne hne, hb]
    have hissued : ∀ {j id}, t.Issued j id → Issued { t with
        link := Function.update t.link i (some bev)
        owner := Function.update t.owner bev (some i) } j id := by
      rintro j id ⟨b, answer, f, ho, hb, hid⟩
      exact ⟨b, answer, f, ho, howner hb, hid⟩
    have hback : ∀ {j id}, Issued { t with
        link := Function.update t.link i (some bev)
        owner := Function.update t.owner bev (some i) } j id → t.Issued j id := by
      rintro j id ⟨b, answer, f, ho, hb, hid⟩
      obtain ⟨k, hk⟩ := h.issued b answer f ho
      obtain rfl := Option.some.inj ((howner hk).symm.trans hb)
      exact ⟨b, answer, f, ho, hk, hid⟩
    refine ⟨?_, fun j => (h.client j).imp_right hissued,
      fun j e he past id hid => (h.queue j e he past id hid).imp_right hissued, ?_, ?_,
      fun j k id hj hk => h.unique j k id (hback hj) (hback hk), ?_, h.fault⟩
    · intro j b hb
      by_cases hj : j = i
      · subst hj
        simp only [Function.update_self] at hb
        cases hb
        exact Function.update_self ..
      · simp only [Function.update_of_ne hj] at hb
        exact howner (h.link j b hb)
    · intro b f hf
      obtain ⟨j, hj, hcarried⟩ := h.up b f hf
      exact ⟨j, howner hj, fun past id hid => (hcarried past id hid).imp_right hissued⟩
    · intro b answer f ho
      obtain ⟨j, hj⟩ := h.issued b answer f ho
      exact ⟨j, howner hj⟩
    · intro b msg ho
      obtain ⟨j, id, hj, hid, hgiven⟩ := h.handed b msg ho
      exact ⟨j, id, howner hj, hid, hissued hgiven⟩
  | close i =>
    cases hs
    refine ⟨?_, h.client, h.queue, h.up, h.issued, h.unique, h.handed, h.fault⟩
    intro j b hb
    by_cases hj : j = i
    · subst hj
      simp only [Function.update_self] at hb
      cases hb
    · simp only [Function.update_of_ne hj] at hb
      exact h.link j b hb
  | accept bev =>
    obtain ⟨-, hs⟩ := Option.ite_none_right_eq_some.mp hs
    cases hs
    exact ⟨h.link, h.client, h.queue, h.up, h.issued, h.unique, h.handed, h.fault⟩
  | event bev events =>
    obtain ⟨-, hs⟩ := Option.ite_none_right_eq_some.mp hs
    cases hs
    have hout := ServerEnd.outputs_onEvent bev events t.server
    have hissued : ∀ {j id}, Issued { t with server := t.server.onEvent bev events } j id ↔
        t.Issued j id := by
      intro j id
      simp only [Issued, hout]
    exact ⟨h.link, fun j => (h.client j).imp_right hissued.mpr,
      fun j e he past id hid => (h.queue j e he past id hid).imp_right hissued.mpr,
      fun b f hf => by
        obtain ⟨j, hj, hcarried⟩ := h.up b f hf
        exact ⟨j, hj, fun past id hid => (hcarried past id hid).imp_right hissued.mpr⟩,
      fun b answer f ho => h.issued b answer f (hout ▸ ho),
      fun j k id hj hk => h.unique j k id (hissued.mp hj) (hissued.mp hk),
      fun b msg ho => by
        obtain ⟨j, id, hj, hid, hgiven⟩ := h.handed b msg (hout ▸ ho)
        exact ⟨j, id, hj, hid, hissued.mpr hgiven⟩, h.fault⟩

theorem clientLoop (h : t.Confined) {i : ι} {env : LoopEnv} {picks : List ClientThread}
    (hs : t.frameStep hook (.clientLoop i env picks) = some t') : t'.Confined := by
  obtain ⟨hadds, hframes⟩ := TestClient.onLoopFrames_spec env picks (t.client i)
  obtain ⟨-, hs⟩ := Option.ite_none_right_eq_some.mp hs
  have hclient := h.setClient hadds
  split at hs
  · cases hs
    exact hclient
  next bev hlink =>
    cases hs
    refine hclient.setChan ?_
    intro f hf
    rcases List.mem_append.mp hf with hf | hf
    · exact h.up _ f hf
    · refine ⟨i, h.link i bev hlink, ?_⟩
      intro past id hid
      obtain ⟨e, rfl, he | hsends⟩ := hframes f hf
      · exact h.queue i e he past id hid
      · rw [hsends.id past] at hid
        cases hid
        exact h.client i

/-- A step over frames, as long as the counter does not go round. -/
theorem frameStep (h : t.Confined) (hsane : t.Sane) {n : ℕ} (hsess : Sessions t.server n)
    (hlt : t.server.issued.length < 2 ^ 64) {c : FrameCall ι}
    (hs : t.frameStep hook c = some t') : t'.Confined := by
  cases c with
  | base c => exact h.baseStep hs
  | clientLoop i env picks => exact h.clientLoop hs
  | serverLoop begin env =>
    cases hs
    -- the loop answers messages; it writes no login answer
    obtain ⟨o, hout, hresponse⟩ := ServerEnd.outputs_onLoop begin env t.server
    refine h.serve hout ?_ ?_
    · intro bev answer f ho
      obtain ⟨_, _, _, heq⟩ := hresponse _ ho
      cases heq
    · intro bev msg ho
      obtain ⟨_, _, _, heq⟩ := hresponse _ ho
      cases heq
  | takeUp bev env =>
    simp only [Network.frameStep] at hs
    split at hs
    · cases hs
    next f up hup =>
      obtain ⟨-, hs⟩ := Option.ite_none_right_eq_some.mp hs
      cases hs
      have hf : f ∈ (t.chan bev).up := hup ▸ List.mem_cons_self
      exact h.handle hsess hf (hsane.up bev f hf) env hlt fun f' hf' =>
        hup ▸ List.mem_cons_of_mem _ hf'
  | takeDown bev env =>
    simp only [Network.frameStep] at hs
    split at hs
    next i f down howner hdown =>
      obtain ⟨-, hs⟩ := Option.ite_none_right_eq_some.mp hs
      cases hs
      have hf : f ∈ (t.chan bev).down := hdown ▸ List.mem_cons_self
      have hchan : (t.setDown bev down).Confined := h.setChan (h.up bev)
      obtain ⟨o, ho, hsent⟩ := hsane.down bev f hf
      -- only a login answer changes the session id of a client
      by_cases htype : f.head.msgtype = ServerMsgType.loginAns.val
      · obtain ⟨answer, id, rfl, hanswer, hid⟩ := (hsane.server.outputs o ho).loginAns hsent htype
        have hmsg := (hsane.plain_down hf).received env.past
        rw [TestClient.handle_of_loginAns hmsg htype (hid env.past)]
        exact hchan.setSessionId ⟨bev, answer, f, ho, howner, hanswer⟩
      · rw [TestClient.handle_of_ne htype]
        exact hchan.setClient (.refl _)
    · cases hs

end Confined

/-! ## Whole runs -/

section Runs

variable [DecidableEq ι] {hook : Hook} {t t' : Network ι Queues}

/-- The sessions of the server, in a step over frames. -/
theorem sessions_frameStep (hsane : t.Sane) {n : ℕ} (hsess : Sessions t.server n)
    {c : FrameCall ι} (hs : t.frameStep hook c = some t') :
    (∃ n', Sessions t'.server n') ∧ t.server.outputs <+: t'.server.outputs := by
  cases c with
  | base c =>
    cases c with
    | close i =>
      cases hs
      exact ⟨⟨n, hsess⟩, List.prefix_rfl⟩
    | command | raw | connect =>
      obtain ⟨-, hs⟩ := Option.ite_none_right_eq_some.mp hs
      cases hs
      exact ⟨⟨n, hsess⟩, List.prefix_rfl⟩
    | accept bev =>
      obtain ⟨-, hs⟩ := Option.ite_none_right_eq_some.mp hs
      cases hs
      exact ⟨⟨n, hsess.of_eq rfl rfl rfl⟩, List.prefix_rfl⟩
    | event bev events =>
      obtain ⟨-, hs⟩ := Option.ite_none_right_eq_some.mp hs
      cases hs
      refine ⟨⟨n, hsess.onEvent bev events⟩, ?_⟩
      show t.server.outputs <+: (t.server.onEvent bev events).outputs
      rw [ServerEnd.outputs_onEvent]
  | clientLoop i env picks =>
    obtain ⟨-, hs⟩ := Option.ite_none_right_eq_some.mp hs
    split at hs
    · cases hs
      exact ⟨⟨n, hsess⟩, List.prefix_rfl⟩
    · cases hs
      exact ⟨⟨n, hsess⟩, List.prefix_rfl⟩
  | serverLoop begin env =>
    cases hs
    exact ⟨⟨n, hsess.onLoop begin env⟩, ServerEnd.outputs_prefix_onLoop begin env _⟩
  | takeUp bev env =>
    simp only [Network.frameStep] at hs
    split at hs
    · cases hs
    next f up hup =>
      obtain ⟨-, hs⟩ := Option.ite_none_right_eq_some.mp hs
      cases hs
      have hmsg := (hsane.up bev f (hup ▸ List.mem_cons_self)).received env.past
      exact ⟨hsess.handle hmsg.sessionFits hook env bev,
        ServerEnd.outputs_prefix_handle hook env bev _ _⟩
  | takeDown bev env =>
    simp only [Network.frameStep] at hs
    split at hs
    · obtain ⟨-, hs⟩ := Option.ite_none_right_eq_some.mp hs
      cases hs
      exact ⟨⟨n, hsess⟩, List.prefix_rfl⟩
    · cases hs

/-- A run over frames, as long as the counter does not go round. -/
theorem confined_of_run (hhook : hook.Sound) {trace : List (Network ι Queues × FrameCall ι)}
    (hrun : Run (frameStep hook) (init {}) trace t) :
    t.server.issued.length < 2 ^ 64 → t.Confined := by
  have hall : t.Sane ∧ (∃ n, Sessions t.server n) ∧
      (t.server.issued.length < 2 ^ 64 → t.Confined) := by
    refine hrun.invariant (I := fun t => t.Sane ∧ (∃ n, Sessions t.server n) ∧
      (t.server.issued.length < 2 ^ 64 → t.Confined)) ⟨.init, ⟨0, .empty⟩, fun _ => .init⟩ ?_
    rintro t c t' ⟨hsane, ⟨n, hsess⟩, hconf⟩ hs
    obtain ⟨hsess', hout⟩ := sessions_frameStep hsane hsess hs
    refine ⟨hsane.frameStep hhook hs, hsess', ?_⟩
    intro hlt
    -- answers are never taken back, so there were not more before
    have hle := (hout.filterMap Output.issued).length_le
    have hbefore : t.server.issued.length < 2 ^ 64 := hle.trans_lt hlt
    exact (hconf hbefore).frameStep hsane hsess hbefore hs
  exact hall.2.2

/-- **Every client in its own session.** In a run over byte streams with the signal server, as
long as fewer logins were answered than there are session ids: a client has no session id or one
that was given to it, no id is given to two clients, a message that is handed on carries an id
given to the client that sent it, and no client reads through a null pointer. -/
theorem run_in_own_session {parses : List UInt8 → Bool}
    {trace : List (Network ι Wires × NetCall ι)} {s : Network ι Wires}
    (hrun : Run (step (SignalServer.onMessage parses)) (init {}) trace s)
    (hlt : s.server.issued.length < 2 ^ 64) : s.InOwnSession := by
  have hhook := SignalServer.onMessage_sound parses
  obtain ⟨trace', q, hframes, -, -⟩ := exists_frames_run hhook hrun
  have hown := (confined_of_run hhook hframes hlt).inOwnSession
  exact ⟨hown.client, hown.unique, hown.handed, hown.fault⟩

/-- A client that logs in. -/
theorem run_in_own_session_login :
    ∃ (trace : List (Network ℕ Wires × NetCall ℕ)) (s : Network ℕ Wires),
      trace.map Prod.snd = loginCalls ∧ s.InOwnSession := by
  obtain ⟨trace, s, hrun, hcalls, hle⟩ := exists_login_run (SignalServer.onMessage fun _ => true)
  have hissued : s.server.issued.length ≤ s.server.outputs.length := List.length_filterMap_le _ _
  exact ⟨trace, s, hcalls, run_in_own_session hrun (by omega)⟩

end Runs

end Network

end SampleTools
