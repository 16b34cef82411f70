import Mathlib.Logic.Function.Basic
import SampleTools.Linker.Answers
import SampleTools.Linker.ClientProgram

/-!
# Clients and a server over byte streams

Client programs are connected to one server. What an end writes on a connection is on its way
until a piece of it arrives, of any length, and joins the input buffer of the other end, whose
read callback then runs. The threads of the clients, the thread of the server and the
connections take their steps in any order. A connection that fails is one on which nothing more
arrives; a client that is not connected throws away what it sends.

The same system can be seen with whole frames in queues in place of bytes: an end takes out one
frame and handles it. Every run over byte streams is such a run.

## Main definitions

* `Network`: the server, the clients, and what is on its way on each connection
* `Wires`, `Network.step`: bytes on their way, and the steps over them
* `Queues`, `Network.frameStep`: frames on their way, and the steps over them
* `Carries`: the bytes on a connection are the frames in its queues
* `Network.Sane`: everything in the queues is a plain frame

## Main results

* `Network.Sane.frameStep`: an invariant of the steps over frames
* `Network.step_refines`: a step over bytes is some steps over frames
* `Network.bytes_refine_frames`: however the bytes are cut, a run over bytes is a run over frames
-/

namespace SampleTools

open LittleEndian Memory

/-- The bytes on their way on a connection, and what the two input buffers hold. -/
structure Wires where
  up : List UInt8 := []
  serverInput : List UInt8 := []
  down : List UInt8 := []
  clientInput : List UInt8 := []

/-- The frames on their way on a connection, to the server and to the client. -/
structure Queues where
  up : List Frame := []
  down : List Frame := []

/-- The server writes frames. -/
def Wires.write (frames : List Frame) (w : Wires) : Wires :=
  { w with down := w.down ++ frames.flatMap Frame.bytes }

/-- The server writes frames. -/
def Queues.write (frames : List Frame) (q : Queues) : Queues :=
  { q with down := q.down ++ frames }

theorem Queues.write_nil (q : Queues) : q.write [] = q := by
  rw [Queues.write, List.append_nil]

theorem Queues.write_write (fs fs' : List Frame) (q : Queues) :
    (q.write fs).write fs' = q.write (fs ++ fs') := by
  simp only [Queues.write, List.append_assoc]

/-- A server and clients `ι`, with what is on its way on each connection: `link` is `client_` of
a client, `owner` the client that made a connection, and `accepted` tells of a connection whether
the server knows it. -/
structure Network (ι χ : Type*) where
  server : ServerEnd
  client : ι → TestClient
  link : ι → Option Bev
  owner : Bev → Option ι
  accepted : Bev → Bool
  chan : Bev → χ

/-- What happens without anything arriving or being sent: a command or a body `main` is given, a
new connection or none, and at the server a connection and an event on one. -/
inductive BaseCall (ι : Type*)
  | command (i : ι) (env : CommandEnv) (c : Command)
  | raw (i : ι) (env : CommandEnv) (num : UInt16)
    (body : { b : List UInt8 // b.length + 1 < 2 ^ 32 })
  | connect (i : ι) (bev : Bev)
  | close (i : ι)
  | accept (bev : Bev)
  | event (bev : Bev) (events : UInt16)

/-- What happens over byte streams: besides, the loops of the two ends, and the arrival of bytes.
-/
inductive NetCall (ι : Type*)
  | base (c : BaseCall ι)
  | clientLoop (i : ι) (env : LoopEnv) (picks : List ClientThread)
  | serverLoop (begin : IterOrder Bev) (env : Env)
  | arriveUp (bev : Bev) (n : ℕ) (env : ℕ → Env)
  | arriveDown (bev : Bev) (n : ℕ) (env : ℕ → AnswerEnv)

/-- What happens over queues: besides, the loops of the two ends, and the handling of a frame.
-/
inductive FrameCall (ι : Type*)
  | base (c : BaseCall ι)
  | clientLoop (i : ι) (env : LoopEnv) (picks : List ClientThread)
  | serverLoop (begin : IterOrder Bev) (env : Env)
  | takeUp (bev : Bev) (env : Env)
  | takeDown (bev : Bev) (env : AnswerEnv)

namespace Network

variable {ι χ χ' : Type*}

/-- Nothing has happened. -/
def init (c : χ) : Network ι χ where
  server := {}
  client _ := {}
  link _ := none
  owner _ := none
  accepted _ := false
  chan _ := c

/-- The same ends, with something else on its way. -/
def carrying (q : Bev → χ') (s : Network ι χ) : Network ι χ' :=
  ⟨s.server, s.client, s.link, s.owner, s.accepted, q⟩

/-- Something else is on its way on a connection. -/
def setChan (bev : Bev) (c : χ) (s : Network ι χ) : Network ι χ :=
  { s with chan := Function.update s.chan bev c }

/-- Other frames are on their way to the server. -/
def setUp (bev : Bev) (up : List Frame) (t : Network ι Queues) : Network ι Queues :=
  t.setChan bev { t.chan bev with up := up }

/-- Other frames are on their way to the client. -/
def setDown (bev : Bev) (down : List Frame) (t : Network ι Queues) : Network ι Queues :=
  t.setChan bev { t.chan bev with down := down }

/-- The server takes a step, and its outputs are written. -/
def serve (write : List Frame → χ → χ) (server : ServerEnd) (s : Network ι χ) : Network ι χ :=
  { s with
    server := server
    chan := fun bev =>
      write (framesTo bev (server.outputs.drop s.server.outputs.length)) (s.chan bev) }

variable [DecidableEq ι]

/-- A client takes a step. -/
def setClient (i : ι) (c : TestClient) (s : Network ι χ) : Network ι χ :=
  { s with client := Function.update s.client i c }

/-- A step without anything arriving or being sent. -/
def baseStep (s : Network ι χ) : BaseCall ι → Option (Network ι χ)
  | .command i env c =>
    if (s.client i).fault = none then
      some (s.setClient i ((s.client i).sendOnMsgType env .main c.val []))
    else none
  | .raw i env num body =>
    if (s.client i).fault = none then
      some (s.setClient i ((s.client i).rawEnqueue env num body))
    else none
  | .connect i bev =>
    if (s.client i).fault = none ∧ s.owner bev = none then
      some { s with
        link := Function.update s.link i (some bev)
        owner := Function.update s.owner bev (some i) }
    else none
  | .close i => some { s with link := Function.update s.link i none }
  | .accept bev =>
    if s.owner bev ≠ none ∧ s.accepted bev = false then
      some { s with
        server := s.server.onAccept bev
        accepted := Function.update s.accepted bev true }
    else none
  | .event bev events =>
    if s.accepted bev then some { s with server := s.server.onEvent bev events } else none

/-- A step over byte streams. -/
def step (hook : Hook) (s : Network ι Wires) : NetCall ι → Option (Network ι Wires)
  | .base c => s.baseStep c
  | .clientLoop i env picks =>
    if (s.client i).fault = none then
      let (c, bytes) := (s.client i).onLoop env picks
      let s := s.setClient i c
      match s.link i with
      -- `Send` has no connection
      | none => some s
      | some bev => some (s.setChan bev { s.chan bev with up := (s.chan bev).up ++ bytes })
    else none
  | .serverLoop begin env => some (s.serve Wires.write (s.server.onLoop begin env))
  | .arriveUp bev n env =>
    if s.accepted bev then
      let w := s.chan bev
      let (server, rest) := s.server.onRead hook env bev (w.serverInput ++ w.up.take n)
      some ((s.setChan bev { w with up := w.up.drop n, serverInput := rest }).serve
        Wires.write server)
    else none
  | .arriveDown bev n env =>
    match s.owner bev with
    | none => none
    | some i =>
      if s.link i = some bev ∧ (s.client i).fault = none then
        let w := s.chan bev
        let (c, rest) := (s.client i).onRead env (w.clientInput ++ w.down.take n)
        some ((s.setChan bev { w with down := w.down.drop n, clientInput := rest }).setClient i c)
      else none

/-- A step over queues of frames. -/
def frameStep (hook : Hook) (s : Network ι Queues) : FrameCall ι → Option (Network ι Queues)
  | .base c => s.baseStep c
  | .clientLoop i env picks =>
    if (s.client i).fault = none then
      let (c, frames) := (s.client i).onLoopFrames env picks
      let s := s.setClient i c
      match s.link i with
      | none => some s
      | some bev => some (s.setUp bev ((s.chan bev).up ++ frames))
    else none
  | .serverLoop begin env => some (s.serve Queues.write (s.server.onLoop begin env))
  | .takeUp bev env =>
    match (s.chan bev).up with
    | [] => none
    | f :: up =>
      if s.accepted bev then
        some ((s.setUp bev up).serve Queues.write
          (s.server.handle hook env bev (QtpMsg.ofFrame env.past f)))
      else none
  | .takeDown bev env =>
    match s.owner bev, (s.chan bev).down with
    | some i, f :: down =>
      if s.link i = some bev ∧ (s.client i).fault = none then
        some ((s.setDown bev down).setClient i
          ((s.client i).handle env (QtpMsg.ofFrame env.past f)))
      else none
    | _, _ => none

/-! ## The server's outputs are written in turn -/

section Serve

variable {write : List Frame → χ → χ} {s : Network ι χ}

omit [DecidableEq ι] in
@[simp] theorem serve_server (server : ServerEnd) : (s.serve write server).server = server := rfl

omit [DecidableEq ι] in
/-- A step that adds no outputs writes nothing. -/
theorem serve_of_outputs_eq (hwrite : ∀ c, write [] c = c) {server : ServerEnd}
    (h : server.outputs = s.server.outputs) :
    s.serve write server = { s with server := server } := by
  have hchan : (fun bev => write (framesTo bev
      (server.outputs.drop s.server.outputs.length)) (s.chan bev)) = s.chan := by
    funext bev
    rw [h, List.drop_length, framesTo_nil, hwrite]
  rw [serve, hchan]

omit [DecidableEq ι] in
/-- Two steps write what they add one after the other. -/
theorem serve_serve (hwrite : ∀ fs fs' c, write fs' (write fs c) = write (fs ++ fs') c)
    {server server' : ServerEnd} (h : s.server.outputs <+: server.outputs)
    (h' : server.outputs <+: server'.outputs) :
    (s.serve write server).serve write server' = s.serve write server' := by
  obtain ⟨new, hnew⟩ := h
  obtain ⟨new', hnew'⟩ := h'
  have hchan : ((s.serve write server).serve write server').chan =
      (s.serve write server').chan := by
    funext bev
    show write (framesTo bev (server'.outputs.drop server.outputs.length))
        (write (framesTo bev (server.outputs.drop s.server.outputs.length)) (s.chan bev)) =
      write (framesTo bev (server'.outputs.drop s.server.outputs.length)) (s.chan bev)
    rw [hwrite, ← framesTo_append, ← hnew', List.drop_left, ← hnew, List.drop_left,
      List.append_assoc, List.drop_left]
  show ({ s.serve write server' with chan := _ } : Network ι χ) = _
  exact congrArg (fun c => ({ s.serve write server' with chan := c } : Network ι χ)) hchan

end Serve

/-! ## An invariant of the steps over frames -/

/-- Everything on its way is a plain frame, on its way to a client it is what the server wrote;
and everything in the queues of the ends is sent as a plain frame. -/
structure Sane (t : Network ι Queues) : Prop where
  queue : ∀ i, ∀ e ∈ (t.client i).msgQueue, e.2.Whole ∧ e.2.frame.Plain
  up : ∀ bev, ∀ f ∈ (t.chan bev).up, f.Plain
  down : ∀ bev, ∀ f ∈ (t.chan bev).down, ∃ o ∈ t.server.outputs, o.sent = some (bev, f)
  server : t.server.Sound

namespace Sane

variable {hook : Hook} {t t' : Network ι Queues}

omit [DecidableEq ι] in
theorem init : Sane (Network.init {} : Network ι Queues) where
  queue _ := List.forall_mem_nil _
  up _ := List.forall_mem_nil _
  down _ := List.forall_mem_nil _
  server := .empty

omit [DecidableEq ι] in
theorem plain_down (h : t.Sane) {bev : Bev} {f : Frame} (hf : f ∈ (t.chan bev).down) :
    f.Plain := by
  obtain ⟨o, ho, hsent⟩ := h.down bev f hf
  exact (h.server.outputs o ho).plain hsent

theorem setClient (h : t.Sane) {i : ι} {c : TestClient}
    (hqueue : ∀ e ∈ c.msgQueue, e ∈ (t.client i).msgQueue ∨ (t.client i).Sends e.2) :
    (t.setClient i c).Sane := by
  refine ⟨?_, h.up, h.down, h.server⟩
  intro j e he
  by_cases hj : j = i
  · subst hj
    simp only [Network.setClient, Function.update_self] at he
    rcases hqueue e he with he | hsends
    · exact h.queue j e he
    · exact ⟨hsends.whole, hsends.plain⟩
  · simp only [Network.setClient, Function.update_of_ne hj] at he
    exact h.queue j e he

omit [DecidableEq ι] in
theorem setChan (h : t.Sane) {bev : Bev} {q : Queues} (hup : ∀ f ∈ q.up, f.Plain)
    (hdown : ∀ f ∈ q.down, f ∈ (t.chan bev).down) : (t.setChan bev q).Sane := by
  refine ⟨h.queue, ?_, ?_, h.server⟩
  · intro b f hf
    by_cases hb : b = bev
    · subst hb
      simp only [Network.setChan, Function.update_self] at hf
      exact hup f hf
    · simp only [Network.setChan, Function.update_of_ne hb] at hf
      exact h.up b f hf
  · intro b f hf
    by_cases hb : b = bev
    · subst hb
      simp only [Network.setChan, Function.update_self] at hf
      exact h.down b f (hdown f hf)
    · simp only [Network.setChan, Function.update_of_ne hb] at hf
      exact h.down b f hf

omit [DecidableEq ι] in
theorem serve (h : t.Sane) {server : ServerEnd} (hsound : server.Sound)
    (hout : t.server.outputs <+: server.outputs) : (t.serve Queues.write server).Sane := by
  refine ⟨h.queue, h.up, ?_, hsound⟩
  intro bev f hf
  rcases List.mem_append.mp hf with hf | hf
  · obtain ⟨o, ho, hsent⟩ := h.down bev f hf
    exact ⟨o, hout.subset ho, hsent⟩
  · obtain ⟨o, ho, hsent⟩ := mem_framesTo.mp hf
    exact ⟨o, List.mem_of_mem_drop ho, hsent⟩

theorem baseStep (h : t.Sane) {c : BaseCall ι} (hs : t.baseStep c = some t') : t'.Sane := by
  cases c with
  | command i env c =>
    obtain ⟨-, hs⟩ := Option.ite_none_right_eq_some.mp hs
    cases hs
    exact h.setClient (TestClient.sendOnMsgType_spec env .main c.val (by decide) _).queue
  | raw i env num body =>
    obtain ⟨-, hs⟩ := Option.ite_none_right_eq_some.mp hs
    cases hs
    exact h.setClient (TestClient.rawEnqueue_spec env num body.2 _).queue
  | connect i bev =>
    obtain ⟨-, hs⟩ := Option.ite_none_right_eq_some.mp hs
    cases hs
    exact ⟨h.queue, h.up, h.down, h.server⟩
  | close i =>
    cases hs
    exact ⟨h.queue, h.up, h.down, h.server⟩
  | accept bev =>
    obtain ⟨-, hs⟩ := Option.ite_none_right_eq_some.mp hs
    cases hs
    exact ⟨h.queue, h.up, h.down, ⟨h.server.outputs, h.server.responses⟩⟩
  | event bev events =>
    obtain ⟨-, hs⟩ := Option.ite_none_right_eq_some.mp hs
    cases hs
    refine ⟨h.queue, h.up, ?_, h.server.onEvent bev events⟩
    intro b f hf
    obtain ⟨o, ho, hsent⟩ := h.down b f hf
    exact ⟨o, by rwa [ServerEnd.outputs_onEvent], hsent⟩

theorem clientLoop (h : t.Sane) {i : ι} {env : LoopEnv} {picks : List ClientThread}
    (hs : t.frameStep hook (.clientLoop i env picks) = some t') : t'.Sane := by
  obtain ⟨hadds, hframes⟩ := TestClient.onLoopFrames_spec env picks (t.client i)
  obtain ⟨-, hs⟩ := Option.ite_none_right_eq_some.mp hs
  have hclient := h.setClient hadds.queue
  split at hs
  · cases hs
    exact hclient
  · cases hs
    refine hclient.setChan ?_ fun f hf => hf
    intro f hf
    rcases List.mem_append.mp hf with hf | hf
    · exact h.up _ f hf
    · obtain ⟨e, rfl, he⟩ := hframes f hf
      exact he.elim (fun he => (h.queue i e he).2) fun hsends => hsends.plain

/-- A frame that arrives at a client changes nothing that is on its way. -/
theorem queue_handle (env : AnswerEnv) (msg : QtpMsg) (c : TestClient) :
    (c.handle env msg).msgQueue = c.msgQueue := by
  unfold TestClient.handle
  split
  · split <;> rfl
  · rfl

theorem frameStep (h : t.Sane) (hhook : hook.Sound) {c : FrameCall ι}
    (hs : t.frameStep hook c = some t') : t'.Sane := by
  cases c with
  | base c => exact h.baseStep hs
  | clientLoop i env picks => exact h.clientLoop hs
  | serverLoop begin env =>
    cases hs
    exact h.serve (h.server.onLoop begin env) (ServerEnd.outputs_prefix_onLoop begin env _)
  | takeUp bev env =>
    simp only [Network.frameStep] at hs
    split at hs
    · cases hs
    next f up hup =>
      obtain ⟨-, hs⟩ := Option.ite_none_right_eq_some.mp hs
      cases hs
      have hplain : ∀ f' ∈ f :: up, f'.Plain := fun f' hf' => h.up bev f' (hup ▸ hf')
      have hchan : (t.setUp bev up).Sane :=
        h.setChan (fun f' hf' => hplain f' (List.mem_cons_of_mem _ hf')) fun f' hf' => hf'
      have hmsg := (hplain f List.mem_cons_self).received env.past
      exact hchan.serve (h.server.handle hhook hmsg)
        (ServerEnd.outputs_prefix_handle hook env bev _ _)
  | takeDown bev env =>
    simp only [Network.frameStep] at hs
    split at hs
    next i f down howner hdown =>
      obtain ⟨-, hs⟩ := Option.ite_none_right_eq_some.mp hs
      cases hs
      have hchan : (t.setDown bev down).Sane :=
        h.setChan (h.up bev) fun f' hf' => hdown ▸ List.mem_cons_of_mem _ hf'
      refine hchan.setClient ?_
      intro e he
      rw [queue_handle] at he
      exact .inl he
    · cases hs

end Sane

/-! ## Bytes and frames -/

/-- The bytes on a connection and in its input buffers are the frames in its queues. -/
structure Carries (w : Wires) (q : Queues) : Prop where
  up : w.serverInput ++ w.up = q.up.flatMap Frame.bytes
  down : w.clientInput ++ w.down = q.down.flatMap Frame.bytes

theorem Carries.write {w : Wires} {q : Queues} (h : Carries w q) (frames : List Frame) :
    Carries (w.write frames) (q.write frames) := by
  refine ⟨h.up, ?_⟩
  show w.clientInput ++ (w.down ++ frames.flatMap Frame.bytes) =
    (q.down ++ frames).flatMap Frame.bytes
  rw [← List.append_assoc, h.down, List.flatMap_append]

/-- The bytes of plain frames are taken out as the frames they are. -/
theorem takeFrame_flatMap {fs : List Frame} (hplain : ∀ f ∈ fs, f.Plain) {input rest : List UInt8}
    {f : Frame} (htake : takeFrame input = some (f, rest)) {later : List UInt8}
    (hsplit : input ++ later = fs.flatMap Frame.bytes) :
    ∃ fs', fs = f :: fs' ∧ rest ++ later = fs'.flatMap Frame.bytes := by
  have hnext : ∀ f ∈ fs, ∀ s, frameExtractor.next (f.bytes ++ s) = some (f, s) :=
    fun f hf => (hplain f hf).next
  obtain ⟨fs', hfs, hrest⟩ := Extractor.drain_front hnext hsplit
  rw [Extractor.drain_of_some htake] at hfs hrest
  refine ⟨(frameExtractor.drain rest).1 ++ fs', hfs, ?_⟩
  rw [List.flatMap_append, ← hrest, ← List.append_assoc, drain_bytes]

section Refinement

variable {hook : Hook} {s s' : Network ι Wires} {q : Bev → Queues}

/-- Steps without anything arriving or being sent do not look at what is on its way. -/
theorem baseStep_carrying (q : Bev → χ') (s : Network ι χ) (c : BaseCall ι) :
    (s.carrying q).baseStep c = (s.baseStep c).map (carrying q) := by
  cases c with
  | close i => rfl
  | command | raw | connect | accept | event =>
    simp only [baseStep, apply_ite (Option.map (carrying q))]
    rfl

omit [DecidableEq ι] in
theorem setUp_self (bev : Bev) (t : Network ι Queues) : t.setUp bev (t.chan bev).up = t := by
  rw [setUp, setChan, Function.update_eq_self]

omit [DecidableEq ι] in
theorem chan_setUp_serve (bev : Bev) (up : List Frame) (server : ServerEnd)
    (t : Network ι Queues) : (((t.setUp bev up).serve Queues.write server).chan bev).up = up := by
  simp only [serve, setUp, setChan, Function.update_self, Queues.write]

omit [DecidableEq ι] in
theorem setUp_serve (bev : Bev) (up up' : List Frame) (server : ServerEnd)
    (t : Network ι Queues) :
    ((t.setUp bev up).serve Queues.write server).setUp bev up' =
      (t.setUp bev up').serve Queues.write server := by
  have hchan : (((t.setUp bev up).serve Queues.write server).setUp bev up').chan =
      ((t.setUp bev up').serve Queues.write server).chan := by
    funext b
    by_cases hb : b = bev
    · subst hb
      simp only [setUp, setChan, serve, Function.update_self, Queues.write]
    · simp only [setUp, setChan, serve, Function.update_of_ne hb]
  exact congrArg (fun c => (⟨server, t.client, t.link, t.owner, t.accepted, c⟩ : Network ι Queues))
    hchan

omit [DecidableEq ι] in
/-- The first frame, and then those behind it. -/
theorem serve_setUp_serve {t : Network ι Queues} {server server' : ServerEnd}
    (h : t.server.outputs <+: server.outputs) (h' : server.outputs <+: server'.outputs)
    (bev : Bev) (up up' : List Frame) :
    (((t.setUp bev up).serve Queues.write server).setUp bev up').serve Queues.write server' =
      (t.setUp bev up').serve Queues.write server' := by
  rw [setUp_serve]
  exact serve_serve Queues.write_write h h'

/-- A read callback of the server takes its frames out of the queue one by one. -/
theorem takeUp_run (hook : Hook) {t : Network ι Queues} {bev : Bev} (hacc : t.accepted bev)
    (hplain : ∀ f ∈ (t.chan bev).up, f.Plain) (env : ℕ → Env) {input later : List UInt8}
    (hup : input ++ later = (t.chan bev).up.flatMap Frame.bytes) :
    ∃ trace up, Run (frameStep hook) t trace
        ((t.setUp bev up).serve Queues.write (t.server.onRead hook env bev input).1) ∧
      (t.server.onRead hook env bev input).2 ++ later = up.flatMap Frame.bytes := by
  induction input using frameExtractor.drain_induction generalizing env t with
  | stop input h =>
    rw [ServerEnd.onRead_of_none h]
    refine ⟨[], (t.chan bev).up, ?_, hup⟩
    rw [setUp_self, serve_of_outputs_eq Queues.write_nil rfl]
    exact .nil
  | step input f rest h ih =>
    obtain ⟨up, hfirst, hrest⟩ := takeFrame_flatMap hplain h hup
    have hstep : t.frameStep hook (.takeUp bev (env 0)) =
        some ((t.setUp bev up).serve Queues.write
          (t.server.handle hook (env 0) bev (QtpMsg.ofFrame (env 0).past f))) := by
      simp only [frameStep, hfirst, hacc, if_true]
    have hchan := chan_setUp_serve bev up
      (t.server.handle hook (env 0) bev (QtpMsg.ofFrame (env 0).past f)) t
    obtain ⟨trace, up', hrun, hleft⟩ := ih
      (t := (t.setUp bev up).serve Queues.write
        (t.server.handle hook (env 0) bev (QtpMsg.ofFrame (env 0).past f)))
      hacc (fun f' hf' => hplain f' (hfirst ▸ List.mem_cons_of_mem _ (hchan ▸ hf')))
      (fun n => env (n + 1)) (hchan.symm ▸ hrest)
    rw [serve_server, serve_setUp_serve (ServerEnd.outputs_prefix_handle hook _ bev _ _)
      (ServerEnd.outputs_prefix_onRead hook _ bev rest _)] at hrun
    rw [ServerEnd.onRead_of_some h]
    exact ⟨_, up', hrun.cons hstep, hleft⟩

/-- A read callback of a client takes its frames out of the queue one by one. -/
theorem takeDown_run (hook : Hook) {t : Network ι Queues} {bev : Bev} {i : ι}
    (howner : t.owner bev = some i) (hlink : t.link i = some bev)
    (hfault : (t.client i).fault = none) (hplain : ∀ f ∈ (t.chan bev).down, f.Plain)
    (env : ℕ → AnswerEnv) {input later : List UInt8}
    (hdown : input ++ later = (t.chan bev).down.flatMap Frame.bytes) :
    ∃ trace down, Run (frameStep hook) t trace
        ((t.setDown bev down).setClient i ((t.client i).onRead env input).1) ∧
      ((t.client i).onRead env input).2 ++ later = down.flatMap Frame.bytes := by
  induction input using frameExtractor.drain_induction generalizing env t with
  | stop input h =>
    rw [TestClient.onRead_of_none h]
    refine ⟨[], (t.chan bev).down, ?_, hdown⟩
    rw [setDown, setChan, setClient, Function.update_eq_self, Function.update_eq_self]
    exact .nil
  | step input f rest h ih =>
    obtain ⟨down, hfirst, hrest⟩ := takeFrame_flatMap hplain h hdown
    have hstep : t.frameStep hook (.takeDown bev (env 0)) =
        some ((t.setDown bev down).setClient i
          ((t.client i).handle (env 0) (QtpMsg.ofFrame (env 0).past f))) := by
      simp only [frameStep, howner, hfirst, hlink, hfault, and_self, if_true]
    rw [TestClient.onRead_of_some h]
    dsimp only
    split
    -- the client stops for good on an answer it cannot parse; what follows stays unread
    next hend => exact ⟨_, down, Run.nil.snoc hstep, hrest⟩
    next hgoes =>
      have hchan : (((t.setDown bev down).setClient i
          ((t.client i).handle (env 0) (QtpMsg.ofFrame (env 0).past f))).chan bev).down = down := by
        simp only [setClient, setDown, setChan, Function.update_self]
      have hclient : ((t.setDown bev down).setClient i
          ((t.client i).handle (env 0) (QtpMsg.ofFrame (env 0).past f))).client i =
          (t.client i).handle (env 0) (QtpMsg.ofFrame (env 0).past f) := by
        simp only [setClient, Function.update_self]
      obtain ⟨trace, down', hrun, hleft⟩ := ih
        (t := (t.setDown bev down).setClient i
          ((t.client i).handle (env 0) (QtpMsg.ofFrame (env 0).past f)))
        howner hlink (by rw [hclient]; exact not_not.mp hgoes)
        (fun f' hf' => hplain f' (hfirst ▸ List.mem_cons_of_mem _ (hchan ▸ hf')))
        (fun n => env (n + 1)) (hchan.symm ▸ hrest)
      rw [hclient] at hrun hleft
      -- the last step of the tail overwrites channel and client again, so the order does not matter
      have hsame : (((t.setDown bev down).setClient i
          ((t.client i).handle (env 0) (QtpMsg.ofFrame (env 0).past f))).setDown bev
            down').setClient i
          (((t.client i).handle (env 0) (QtpMsg.ofFrame (env 0).past f)).onRead
            (fun n => env (n + 1)) rest).1 =
          (t.setDown bev down').setClient i
            (((t.client i).handle (env 0) (QtpMsg.ofFrame (env 0).past f)).onRead
              (fun n => env (n + 1)) rest).1 := by
        simp only [setClient, setDown, setChan, Function.update_self, Function.update_idem]
      rw [hsame] at hrun
      exact ⟨_, down', hrun.cons hstep, hleft⟩

omit [DecidableEq ι] in
theorem carrying_serve (q : Bev → Queues) (server : ServerEnd) (s : Network ι Wires) :
    (s.carrying q).serve Queues.write server = (s.serve Wires.write server).carrying
      fun bev => (q bev).write
        (framesTo bev (server.outputs.drop s.server.outputs.length)) := rfl

/-- A turn of a client's loop sends its frames as bytes. -/
theorem clientLoop_refines (hsane : (s.carrying q).Sane)
    (hq : ∀ bev, Carries (s.chan bev) (q bev)) {i : ι} {env : LoopEnv} {picks : List ClientThread}
    (hs : s.step hook (.clientLoop i env picks) = some s') :
    ∃ q', (s.carrying q).frameStep hook (.clientLoop i env picks) = some (s'.carrying q') ∧
      ∀ bev, Carries (s'.chan bev) (q' bev) := by
  have hwhole : ∀ e ∈ (s.client i).msgQueue, e.2.Whole := fun e he => (hsane.queue i e he).1
  simp only [step, TestClient.onLoop_eq hwhole] at hs
  obtain ⟨hfault, hs⟩ := Option.ite_none_right_eq_some.mp hs
  have hfault' : ((s.carrying q).client i).fault = none := hfault
  simp only [frameStep, if_pos hfault']
  cases hlink : s.link i with
  | none =>
    simp only [setClient, hlink] at hs
    cases hs
    refine ⟨q, ?_, hq⟩
    simp only [setClient, carrying, hlink]
  | some bev =>
    simp only [setClient, hlink] at hs
    cases hs
    refine ⟨Function.update q bev { q bev with
      up := (q bev).up ++ ((s.client i).onLoopFrames env picks).2 }, ?_, ?_⟩
    · simp only [setClient, carrying, setUp, setChan, hlink]
    · intro b
      by_cases hb : b = bev
      · subst hb
        simp only [setChan, Function.update_self]
        refine ⟨?_, (hq b).down⟩
        rw [← List.append_assoc, (hq b).up, List.flatMap_append]
      · simp only [setChan, Function.update_of_ne hb]
        exact hq b

/-- Bytes that arrive at the server. -/
theorem arriveUp_refines (hsane : (s.carrying q).Sane)
    (hq : ∀ bev, Carries (s.chan bev) (q bev)) {bev : Bev} {n : ℕ} {env : ℕ → Env}
    (hs : s.step hook (.arriveUp bev n env) = some s') :
    ∃ trace q', Run (frameStep hook) (s.carrying q) trace (s'.carrying q') ∧
      ∀ b, Carries (s'.chan b) (q' b) := by
  obtain ⟨hacc, hs⟩ := Option.ite_none_right_eq_some.mp hs
  -- the bytes that arrive, and those that come later
  have hsplit : ((s.chan bev).serverInput ++ (s.chan bev).up.take n) ++ (s.chan bev).up.drop n =
      (q bev).up.flatMap Frame.bytes := by
    rw [List.append_assoc, List.take_append_drop, (hq bev).up]
  obtain ⟨trace, up, hrun, hleft⟩ := takeUp_run hook (t := s.carrying q) hacc (hsane.up bev) env
    hsplit
  cases hs
  refine ⟨trace, _, hrun, ?_⟩
  intro b
  refine Carries.write ?_ _
  by_cases hb : b = bev
  · subst hb
    simp only [setUp, setChan, carrying, Function.update_self]
    exact ⟨hleft, (hq b).down⟩
  · simp only [setUp, setChan, carrying, Function.update_of_ne hb]
    exact hq b

/-- Bytes that arrive at a client. -/
theorem arriveDown_refines (hsane : (s.carrying q).Sane)
    (hq : ∀ bev, Carries (s.chan bev) (q bev)) {bev : Bev} {n : ℕ} {env : ℕ → AnswerEnv}
    (hs : s.step hook (.arriveDown bev n env) = some s') :
    ∃ trace q', Run (frameStep hook) (s.carrying q) trace (s'.carrying q') ∧
      ∀ b, Carries (s'.chan b) (q' b) := by
  simp only [step] at hs
  split at hs
  · cases hs
  next i howner =>
    obtain ⟨⟨hlink, hfault⟩, hs⟩ := Option.ite_none_right_eq_some.mp hs
    have hsplit : ((s.chan bev).clientInput ++ (s.chan bev).down.take n) ++
        (s.chan bev).down.drop n = (q bev).down.flatMap Frame.bytes := by
      rw [List.append_assoc, List.take_append_drop, (hq bev).down]
    obtain ⟨trace, down, hrun, hleft⟩ := takeDown_run hook (t := s.carrying q) howner hlink hfault
      (fun f hf => hsane.plain_down hf) env hsplit
    cases hs
    refine ⟨trace, _, hrun, ?_⟩
    intro b
    by_cases hb : b = bev
    · subst hb
      simp only [setClient, setDown, setChan, carrying, Function.update_self]
      exact ⟨(hq b).up, hleft⟩
    · simp only [setClient, setDown, setChan, carrying, Function.update_of_ne hb]
      exact hq b

/-- A step over byte streams is some steps over frames. -/
theorem step_refines (hsane : (s.carrying q).Sane) (hq : ∀ bev, Carries (s.chan bev) (q bev))
    {c : NetCall ι} (hs : s.step hook c = some s') :
    ∃ trace q', Run (frameStep hook) (s.carrying q) trace (s'.carrying q') ∧
      ∀ bev, Carries (s'.chan bev) (q' bev) := by
  cases c with
  | base c =>
    have hbase : (s.carrying q).frameStep hook (.base c) = some (s'.carrying q) := by
      show (s.carrying q).baseStep c = _
      rw [baseStep_carrying, show s.baseStep c = some s' from hs, Option.map_some]
    have hchan : s'.chan = s.chan := by
      cases c with
      | close i =>
        cases hs
        rfl
      | command | raw | connect | accept | event =>
        obtain ⟨-, hs⟩ := Option.ite_none_right_eq_some.mp hs
        cases hs
        rfl
    exact ⟨_, q, Run.nil.snoc hbase, fun bev => by rw [hchan]; exact hq bev⟩
  | clientLoop i env picks =>
    -- a send writes bytes to the wire and whole frames to the queue
    obtain ⟨q', hstep, hq'⟩ := clientLoop_refines hsane hq hs
    exact ⟨_, q', Run.nil.snoc hstep, hq'⟩
  | serverLoop begin env =>
    cases hs
    have hstep : (s.carrying q).frameStep hook (.serverLoop begin env) =
        some ((s.serve Wires.write (s.server.onLoop begin env)).carrying _) :=
      congrArg some (carrying_serve q (s.server.onLoop begin env) s)
    exact ⟨_, _, Run.nil.snoc hstep, fun bev => (hq bev).write _⟩
  | arriveUp bev n env => exact arriveUp_refines hsane hq hs
  | arriveDown bev n env => exact arriveDown_refines hsane hq hs

/-- A run over byte streams, and what it carries. -/
theorem exists_frames_run (hhook : hook.Sound) {trace : List (Network ι Wires × NetCall ι)}
    (hrun : Run (step hook) (init {}) trace s) :
    ∃ trace' q, Run (frameStep hook) (init {}) trace' (s.carrying q) ∧ (s.carrying q).Sane ∧
      ∀ bev, Carries (s.chan bev) (q bev) := by
  induction hrun with
  | nil => exact ⟨[], fun _ => {}, .nil, .init, fun _ => ⟨rfl, rfl⟩⟩
  | snoc _ hs ih =>
    obtain ⟨trace', q, hrun, hsane, hq⟩ := ih
    obtain ⟨more, q', hmore, hq'⟩ := step_refines hsane hq hs
    exact ⟨_, q', hrun.trans hmore, hmore.invariant hsane fun h hs => h.frameStep hhook hs, hq'⟩

/-- **Bytes and frames.** However the bytes are cut on their way, and whatever the order in which
the ends and the connections take their steps, a run over byte streams is a run over queues of
frames: the ends are in the same states, and the bytes on each connection are the frames in its
queues. -/
theorem bytes_refine_frames (hhook : hook.Sound)
    {trace : List (Network ι Wires × NetCall ι)} (hrun : Run (step hook) (init {}) trace s) :
    ∃ trace' q, Run (frameStep hook) (init {}) trace' (s.carrying q) ∧
      ∀ bev, Carries (s.chan bev) (q bev) := by
  obtain ⟨trace', q, hframes, -, hq⟩ := exists_frames_run hhook hrun
  exact ⟨trace', q, hframes, hq⟩

end Refinement

/-! ## A login in two pieces -/

/-- A client that finds no files, at time zero, with zeros past the ends. -/
def zeroCommandEnv : CommandEnv where
  sampleCal := []
  sampleCal_length := Nat.two_pow_pos 32
  factorsMass := []
  factorsMass_length := by decide
  parses _ := true
  order := .stored
  past _ := 0
  past' _ := 0

/-- Client 1 makes connection 7 and logs in; the request arrives in two pieces, and the answer
in one. -/
def loginCalls : List (NetCall ℕ) :=
  [.base (.connect 1 7), .base (.accept 7), .base (.command 1 zeroCommandEnv .login),
    .clientLoop 1 ⟨zeroCommandEnv, 0, fun _ => ⟨fun _ => 0, fun _ => 0, fun _ => 0⟩⟩ [.main],
    .arriveUp 7 5 fun _ => zeroEnv, .arriveUp 7 100 fun _ => zeroEnv,
    .arriveDown 7 100 fun _ => ⟨fun _ => 0, fun _ => 0⟩]

/-- Bytes that arrive at the server add no more outputs than there are bytes to read. -/
theorem exists_arriveUp (hook : Hook) {s : Network ι Wires} {bev : Bev} (hacc : s.accepted bev)
    (n : ℕ) (env : ℕ → Env) :
    ∃ s', s.step hook (.arriveUp bev n env) = some s' ∧ s'.accepted = s.accepted ∧
      s'.owner = s.owner ∧ s'.link = s.link ∧ s'.client = s.client ∧
      s'.server.outputs.length + (s'.chan bev).serverInput.length ≤
        s.server.outputs.length + (s.chan bev).serverInput.length + n := by
  refine ⟨_, if_pos hacc, rfl, rfl, rfl, rfl, ?_⟩
  have hle := ServerEnd.outputs_length_onRead_le hook env bev
    ((s.chan bev).serverInput ++ (s.chan bev).up.take n) s.server
  have htake := List.length_take_le n (s.chan bev).up
  rw [List.length_append] at hle
  simp only [serve, Wires.write, setChan, Function.update_self]
  omega

theorem exists_login_run (hook : Hook) :
    ∃ trace s, Run (step hook) (init {} : Network ℕ Wires) trace s ∧
      trace.map Prod.snd = loginCalls ∧ s.server.outputs.length ≤ 105 := by
  have hsent : Run (step hook) (init {} : Network ℕ Wires) _ _ :=
    Run.nil.snoc (a := .base (.connect 1 7)) rfl |>.snoc (a := .base (.accept 7)) rfl
    |>.snoc (a := .base (.command 1 zeroCommandEnv .login)) rfl
    |>.snoc (a := .clientLoop 1
      ⟨zeroCommandEnv, 0, fun _ => ⟨fun _ => 0, fun _ => 0, fun _ => 0⟩⟩ [.main]) rfl
  obtain ⟨trace, s, hrun, hcalls, hacc, howner, hlink, hle⟩ :
      ∃ trace s, Run (step hook) (init {} : Network ℕ Wires) trace s ∧
        trace.map Prod.snd = loginCalls.take 4 ∧ s.accepted 7 = true ∧
        s.owner 7 = some 1 ∧ (s.link 1 = some 7 ∧ (s.client 1).fault = none) ∧
        s.server.outputs.length + (s.chan 7).serverInput.length ≤ 0 :=
    ⟨_, _, hsent, rfl, rfl, rfl, ⟨rfl, rfl⟩, Nat.le_refl 0⟩
  -- the two pieces, and the answer
  obtain ⟨s₁, hs₁, hacc₁, howner₁, hlink₁, hclient₁, hle₁⟩ :=
    exists_arriveUp hook hacc 5 fun _ => zeroEnv
  obtain ⟨s₂, hs₂, -, howner₂, hlink₂, hclient₂, hle₂⟩ :=
    exists_arriveUp hook (hacc₁ ▸ hacc) 100 fun _ => zeroEnv
  obtain ⟨s₃, hs₃, hserver₃⟩ : ∃ s₃, s₂.step hook (.arriveDown 7 100 fun _ =>
      ⟨fun _ => 0, fun _ => 0⟩) = some s₃ ∧ s₃.server = s₂.server := by
    simp only [step, howner₂, howner₁, howner]
    refine ⟨_, if_pos ?_, rfl⟩
    rw [hlink₂, hlink₁, hclient₂, hclient₁]
    exact hlink
  refine ⟨_, s₃, ((hrun.snoc hs₁).snoc hs₂).snoc hs₃, ?_, ?_⟩
  · simp only [List.map_append, hcalls]
    rfl
  · rw [hserver₃]
    omega

/-- The login is a run over frames. -/
theorem bytes_refine_frames_login :
    ∃ (trace : List (Network ℕ Wires × NetCall ℕ)) (s : Network ℕ Wires) (q : Bev → Queues)
      (trace' : List (Network ℕ Queues × FrameCall ℕ)), trace.map Prod.snd = loginCalls ∧
      Run (frameStep (SignalServer.onMessage fun _ => true)) (init {}) trace' (s.carrying q) ∧
      ∀ bev, Carries (s.chan bev) (q bev) := by
  obtain ⟨trace, s, hrun, hcalls, -⟩ := exists_login_run (SignalServer.onMessage fun _ => true)
  obtain ⟨trace', q, hframes, hq⟩ := bytes_refine_frames (SignalServer.onMessage_sound _) hrun
  exact ⟨trace, s, q, trace', hcalls, hframes, hq⟩

end Network

end SampleTools
