import SampleTools.Library.ProducerQueue
import SampleTools.Linker.PlainMsg
import SampleTools.Linker.SignalServer

/-!
# What the server writes

As long as the messages it receives are plain, all the server writes are plain frames, and only
the answers to logins have the type of one; such an answer carries a session id. What the
override of `onMessage` pushes has to be plain and no login answer; this is so for the signal
server.

## Main definitions

* `Output.sent`, `framesTo`: the frame an output writes, and the frames for one connection
* `Output.Sound`, `ServerEnd.Sound`: the outputs and the queue are as described
* `Hook.Sound`: what is required of an override

## Main results

* `ServerEnd.Sound.handle`, `ServerEnd.Sound.onLoop`: kept by messages and turns of the loop
* `ServerEnd.outputs_prefix_onRead`: a read callback only adds outputs
* `SignalServer.onMessage_sound`: the signal server's override
-/

namespace SampleTools

/-- The frame an output writes, with its connection. -/
def Output.sent : Output → Option (Bev × Frame)
  | .heartBeatAns bev _ f | .loginAns bev _ f | .response bev _ f => some (bev, f)
  | .onMessage .. => none

/-- The frames that are written on a connection. -/
def framesTo (bev : Bev) (outputs : List Output) : List Frame :=
  ofProducer bev (outputs.filterMap Output.sent)

@[simp] theorem framesTo_nil (bev : Bev) : framesTo bev [] = [] := rfl

@[simp] theorem framesTo_append (bev : Bev) (outs outs' : List Output) :
    framesTo bev (outs ++ outs') = framesTo bev outs ++ framesTo bev outs' := by
  rw [framesTo, List.filterMap_append, ofProducer_append, framesTo, framesTo]

theorem mem_framesTo {bev : Bev} {outputs : List Output} {f : Frame} :
    f ∈ framesTo bev outputs ↔ ∃ o ∈ outputs, o.sent = some (bev, f) := by
  rw [framesTo, ofProducer, List.mem_filterMap]
  constructor
  · rintro ⟨⟨b, f'⟩, hmem, hf⟩
    obtain ⟨o, ho, hsent⟩ := List.mem_filterMap.mp hmem
    split at hf
    next hb =>
      cases hf
      exact ⟨o, ho, hsent.trans (by rw [show b = bev from hb])⟩
    next => cases hf
  · rintro ⟨o, ho, hsent⟩
    exact ⟨(bev, f), List.mem_filterMap.mpr ⟨o, ho, hsent⟩, if_pos rfl⟩

/-- What is written is a plain frame; a login answer carries the id its message has, and no
other frame has its type. -/
def Output.Sound : Output → Prop
  | .heartBeatAns _ _ f => f.Plain ∧ f.head.msgtype ≠ ServerMsgType.loginAns.val
  | .loginAns _ answer f => f.Plain ∧ (carriedId answer).isSome ∧
    ∀ past, carriedId (QtpMsg.ofFrame past f) = carriedId answer
  | .onMessage _ msg => msg.Plain
  | .response _ _ f => f.Plain ∧ f.head.msgtype ≠ ServerMsgType.loginAns.val

theorem Output.Sound.plain {o : Output} (h : o.Sound) {bev : Bev} {f : Frame}
    (hsent : o.sent = some (bev, f)) : f.Plain := by
  cases o with
  | heartBeatAns | loginAns | response =>
    cases hsent
    exact h.1
  | onMessage => cases hsent

/-- A frame with the type of a login answer is one. -/
theorem Output.Sound.loginAns {o : Output} (h : o.Sound) {bev : Bev} {f : Frame}
    (hsent : o.sent = some (bev, f)) (hf : f.head.msgtype = ServerMsgType.loginAns.val) :
    ∃ answer id, o = .loginAns bev answer f ∧ carriedId answer = some id ∧
      ∀ past, carriedId (QtpMsg.ofFrame past f) = some id := by
  cases o with
  | heartBeatAns | response =>
    cases hsent
    exact absurd hf h.2
  | loginAns b answer f' =>
    cases hsent
    obtain ⟨-, hsome, hcarried⟩ := h
    obtain ⟨id, hid⟩ := Option.isSome_iff_exists.mp hsome
    exact ⟨answer, id, rfl, hid, fun past => (hcarried past).trans hid⟩
  | onMessage => cases hsent

/-- A message an override may push. -/
structure QtpMsg.Pushable (m : QtpMsg) : Prop where
  plain : m.Plain
  msgtype : m.head.msgtype ≠ ServerMsgType.loginAns.val

/-- What an override pushes for a plain message. -/
def Hook.Sound (hook : Hook) : Prop :=
  ∀ bev msg, msg.Plain → ∀ r ∈ hook bev msg, r.Pushable

/-- The outputs so far are sound, and what waits in the queue may be pushed. -/
structure ServerEnd.Sound (s : ServerEnd) : Prop where
  outputs : ∀ o ∈ s.outputs, o.Sound
  responses : ∀ r ∈ s.msgToClients, r.msg.Pushable

namespace ServerEnd

variable {s : ServerEnd} {hook : Hook} {env : Env} {bev : Bev} {msg : QtpMsg}

theorem Sound.empty : Sound {} := ⟨List.forall_mem_nil _, List.forall_mem_nil _⟩

theorem Sound.emit (h : s.Sound) {o : Output} (ho : o.Sound) : (s.emit o).Sound := by
  refine ⟨?_, h.responses⟩
  intro o' ho'
  rw [emit_outputs, List.mem_append, List.mem_singleton] at ho'
  rcases ho' with ho' | rfl
  · exact h.outputs o' ho'
  · exact ho

theorem Sound.pushAll (h : s.Sound) (bev : Bev) {msgs : List QtpMsg}
    (hmsgs : ∀ m ∈ msgs, m.Pushable) : (s.pushAll bev msgs).Sound := by
  induction msgs generalizing s with
  | nil => exact h
  | cons m msgs ih =>
    refine ih ⟨h.outputs, ?_⟩ fun m' hm' => hmsgs m' (List.mem_cons_of_mem _ hm')
    intro r hr
    rcases List.mem_append.mp hr with hr | hr
    · exact h.responses r hr
    · rw [List.mem_singleton.mp hr]
      exact hmsgs m List.mem_cons_self

/-- A plain message with a session id is answered by a frame with that id. -/
theorem loginAns_sound (hmsg : msg.Plain) (hid : (carriedId msg).isSome)
    (o : IterOrder OptionRequest) (bev : Bev) :
    (Output.loginAns bev (msg.sendData o).1 (msg.sendData o).2).Sound := by
  have hcarried : carriedId (msg.sendData o).1 = carriedId msg := carriedId_of_opts rfl
  refine ⟨hmsg.sendData o, hcarried ▸ hid, ?_⟩
  intro past
  rw [hmsg.carriedId_frame o past, hcarried]

theorem isSome_carriedId_of_isLogin (h : s.isLogin env msg = true) : (carriedId msg).isSome := by
  unfold isLogin at h
  rw [carriedId, Option.isSome_map]
  cases hget : msg.getOption OptionId.sessionId.toI64 with
  | none =>
    rw [hget] at h
    cases h
  | some r => rfl

theorem Sound.handleBeat (h : s.Sound) (hmsg : msg.Plain) : (s.handleBeat env bev msg).Sound := by
  have hans := (hmsg.setMsgtype ServerMsgType.heartBeatAns.val).addOption env.order .serverTime
    env.now (by decide)
  have htype := QtpMsg.sendData_msgtype hans.fits env.order
  refine h.emit ⟨hans.sendData env.order, ?_⟩
  have hne : ServerMsgType.heartBeatAns.val ≠ ServerMsgType.loginAns.val := by decide
  intro hlogin
  exact hne (htype.symm.trans hlogin)

theorem Sound.handleLogin (h : s.Sound) (hmsg : msg.Plain) :
    (s.handleLogin env bev msg).Sound := by
  unfold ServerEnd.handleLogin
  split
  next hlogin =>
    have hans := hmsg.setMsgtype ServerMsgType.loginAns.val
    exact h.emit (loginAns_sound hans (isSome_carriedId_of_isLogin hlogin) env.order bev)
  next =>
    have hans := (hmsg.setMsgtype ServerMsgType.loginAns.val).addOption env.order
      .sessionId (s.curSessionId + 1) (by decide)
    have hopen : s.openSession.Sound := ⟨h.outputs, h.responses⟩
    refine hopen.emit (loginAns_sound hans ?_ env.order bev)
    rw [carriedId_set rfl]
    rfl

/-- A plain message keeps the outputs sound. -/
theorem Sound.handle (h : s.Sound) (hhook : hook.Sound) (hmsg : msg.Plain) :
    (s.handle hook env bev msg).Sound := by
  unfold ServerEnd.handle
  split
  · exact h.handleBeat hmsg
  · split
    · exact h.handleLogin hmsg
    · split
      · exact h
      · exact (h.emit (o := .onMessage bev msg) hmsg).pushAll bev (hhook bev msg hmsg)

theorem Sound.onLoop (h : s.Sound) (begin : IterOrder Bev) (env : Env) :
    (s.onLoop begin env).Sound := by
  unfold ServerEnd.onLoop
  split
  · exact h
  · rename_i r rest hq
    have hrest : ServerEnd.Sound { s with msgToClients := rest } :=
      ⟨h.outputs, fun r' hr' => h.responses r' (hq ▸ List.mem_cons_of_mem _ hr')⟩
    have hr := h.responses r (hq ▸ List.mem_cons_self)
    unfold handleMsgToClient
    split
    · exact hrest
    · have htype := QtpMsg.sendData_msgtype hr.plain.fits env.order
      refine hrest.emit ⟨hr.plain.sendData env.order, ?_⟩
      intro hlogin
      exact hr.msgtype (htype.symm.trans hlogin)

theorem Sound.onEvent (h : s.Sound) (bev : Bev) (events : UInt16) :
    (s.onEvent bev events).Sound := by
  unfold ServerEnd.onEvent
  split
  · exact h
  · split
    · exact ⟨h.outputs, h.responses⟩
    · exact h

/-! ## Outputs are only added -/

theorem outputs_prefix_handle (hook : Hook) (env : Env) (bev : Bev) (msg : QtpMsg)
    (s : ServerEnd) : s.outputs <+: (s.handle hook env bev msg).outputs := by
  rcases s.handle_cases hook env bev msg with ⟨a, fr, heq⟩ | ⟨-, a, fr, -, heq⟩ |
    ⟨-, a, fr, -, heq⟩ | ⟨-, heq⟩ | ⟨-, heq⟩
  · rw [heq]
    exact List.prefix_append _ _
  · rw [heq]
    exact List.prefix_append _ _
  · rw [heq]
    exact List.prefix_append _ _
  · rw [heq]
  · rw [heq, pushAll_outputs]
    exact List.prefix_append _ _

theorem outputs_prefix_onLoop (begin : IterOrder Bev) (env : Env) (s : ServerEnd) :
    s.outputs <+: (s.onLoop begin env).outputs := by
  unfold onLoop
  split
  · exact List.prefix_rfl
  · unfold handleMsgToClient
    split
    · exact List.prefix_rfl
    · exact List.prefix_append _ _

theorem outputs_onEvent (bev : Bev) (events : UInt16) (s : ServerEnd) :
    (s.onEvent bev events).outputs = s.outputs := by
  unfold onEvent
  split
  · rfl
  · split <;> rfl

theorem outputs_prefix_onRead (hook : Hook) (env : ℕ → Env) (bev : Bev) (input : List UInt8)
    (s : ServerEnd) : s.outputs <+: (s.onRead hook env bev input).1.outputs := by
  induction input using frameExtractor.drain_induction generalizing env s with
  | stop input h =>
    rw [onRead_of_none h]
  | step input f rest h ih =>
    rw [onRead_of_some h]
    exact (outputs_prefix_handle hook _ bev _ s).trans (ih _ _)

/-- A read callback adds no more outputs than it reads bytes. -/
theorem outputs_length_onRead_le (hook : Hook) (env : ℕ → Env) (bev : Bev) (input : List UInt8)
    (s : ServerEnd) : (s.onRead hook env bev input).1.outputs.length +
      (s.onRead hook env bev input).2.length ≤ s.outputs.length + input.length := by
  induction input using frameExtractor.drain_induction generalizing env s with
  | stop input h =>
    rw [onRead_of_none h]
  | step input f rest h ih =>
    -- a message adds at most one, and takes the bytes of its frame
    have hone : (s.handle hook (env 0) bev (QtpMsg.ofFrame (env 0).past f)).outputs.length ≤
        s.outputs.length + 1 := by
      rcases s.handle_cases hook (env 0) bev (QtpMsg.ofFrame (env 0).past f) with ⟨a, fr, heq⟩ |
        ⟨-, a, fr, -, heq⟩ | ⟨-, a, fr, -, heq⟩ | ⟨-, heq⟩ | ⟨-, heq⟩
      · rw [heq, emit_outputs, List.length_append, List.length_singleton]
      · rw [heq, emit_outputs, List.length_append, List.length_singleton]
      · rw [heq, emit_outputs, List.length_append, List.length_singleton]
        exact Nat.le_refl _
      · rw [heq]
        exact Nat.le_succ _
      · rw [heq, pushAll_outputs, emit_outputs, List.length_append, List.length_singleton]
    have hshort := frameExtractor.shorter h
    have hrest := ih (fun n => env (n + 1))
      (s.handle hook (env 0) bev (QtpMsg.ofFrame (env 0).past f))
    rw [onRead_of_some h]
    omega

end ServerEnd

/-- The signal server pushes answers to subscriptions. -/
theorem SignalServer.onMessage_sound (parses : List UInt8 → Bool) :
    (SignalServer.onMessage parses).Sound := by
  intro bev msg hmsg r hr
  unfold onMessage at hr
  split at hr
  · unfold handleSubscribe at hr
    split at hr
    · rw [List.mem_singleton.mp hr]
      have hlen : ("failed.".toUTF8.toList ++ [0]).length < 2 ^ 32 := by decide +kernel
      refine ⟨(hmsg.setMsgtype _).setData hlen, ?_⟩
      show FactorMsgT.cmnSubscribeAns.val ≠ _
      decide
    · exact absurd hr (List.not_mem_nil)
  · exact absurd hr (List.not_mem_nil)

end SampleTools
