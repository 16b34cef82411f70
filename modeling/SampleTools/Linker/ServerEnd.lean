import Mathlib.Data.Finset.Basic
import SampleTools.Library.Run
import SampleTools.Tcp.ReadLoop

/-!
# The server `ServerEnd`

One thread runs the callbacks of all connections. `OnRead` answers heartbeats and
logins itself, drops messages without a valid session, and hands the others to
`onMessage`, which a derived server overrides. What `onMessage` wants to send it puts
into a queue, and `OnLoop` sends the front of the queue.

The model records what the server does in `outputs`. A queued response also remembers
the connection of its request and the number of its push; the code reads neither.

## Main definitions

* `ServerEnd`, `Output`: the state, and what the server does
* `ServerEnd.handle`, `ServerEnd.onRead`: one message, and the read callback
* `ServerCall`, `ServerEnd.step`: what can happen to a server

## Main results

* `ServerEnd.handle_cases`: what a message can do
* `ServerEnd.onRead_run`: a read callback is a run of its frames
-/

namespace SampleTools

open LittleEndian Memory

/-- A `bufferevent*`. -/
abbrev Bev := ℕ

/-- The message types `ServerEnd` tells apart or writes. -/
inductive ServerMsgType
  | heartBeat
  | heartBeatAns
  | login
  | loginAns
  deriving DecidableEq, Repr

/-- The numbers in the code. -/
def ServerMsgType.val : ServerMsgType → UInt16
  | .heartBeat => 101
  | .heartBeatAns => 102
  | .login => 1001
  | .loginAns => 1002

/-- A response in the queue. -/
structure Response where
  id : ℕ
  requester : Bev
  msg : QtpMsg

/-- What the server does: it answers, calls `onMessage`, or sends a response. -/
inductive Output
  | heartBeatAns (bev : Bev) (answer : QtpMsg) (frame : Frame)
  | loginAns (bev : Bev) (answer : QtpMsg) (frame : Frame)
  | onMessage (bev : Bev) (msg : QtpMsg)
  | response (bev : Bev) (response : Response) (frame : Frame)

/-- `ServerEnd`. -/
structure ServerEnd where
  bevSet : List Bev := []
  msgToClients : List Response := []
  sessionLogined : Finset Int64 := ∅
  curSessionId : Int64 := 0
  pushed : ℕ := 0
  outputs : List Output := []

/-- What one callback finds outside the server: past the end of the option block and of a
session option, the order of the option map, and the clock. -/
structure Env where
  past : ℕ → UInt8
  pastOption : ℕ → UInt8
  order : IterOrder OptionRequest
  now : Int64

/-- The messages an override of `onMessage` pushes. -/
abbrev Hook := Bev → QtpMsg → List QtpMsg

namespace ServerEnd

/-- The server does something. -/
def emit (o : Output) (s : ServerEnd) : ServerEnd := { s with outputs := s.outputs ++ [o] }

/-- `PushMsgToClient`, called for a request of `bev`. -/
def pushMsgToClient (bev : Bev) (msg : QtpMsg) (s : ServerEnd) : ServerEnd :=
  { s with msgToClients := s.msgToClients ++ [⟨s.pushed, bev, msg⟩], pushed := s.pushed + 1 }

/-- Several pushes for a request of `bev`. -/
def pushAll (bev : Bev) (msgs : List QtpMsg) (s : ServerEnd) : ServerEnd :=
  msgs.foldl (fun s m => s.pushMsgToClient bev m) s

/-- `IsLogin`. -/
def isLogin (env : Env) (msg : QtpMsg) (s : ServerEnd) : Bool :=
  match msg.getOption OptionId.sessionId.toI64 with
  | none => false
  | some sessionOpt =>
    let sessionId := i64Of (peekN env.pastOption sessionOpt.optionBuf 0 8)
    sessionId ∈ s.sessionLogined

/-- `HandleBeat`. -/
def handleBeat (env : Env) (bev : Bev) (msg : QtpMsg) (s : ServerEnd) : ServerEnd :=
  let msg := msg.setMsgtype ServerMsgType.heartBeatAns.val
  let msg := msg.addOption env.order (.ofInt64 OptionId.serverTime.toU16 env.now)
  let (msg, frame) := msg.sendData env.order
  s.emit (.heartBeatAns bev msg frame)

/-- `HandleLogin`. -/
def handleLogin (env : Env) (bev : Bev) (msg : QtpMsg) (s : ServerEnd) : ServerEnd :=
  if s.isLogin env msg then
    -- already logged in: the request goes back with its options
    let msg := msg.setMsgtype ServerMsgType.loginAns.val
    let (msg, frame) := msg.sendData env.order
    s.emit (.loginAns bev msg frame)
  else
    let msg := msg.setMsgtype ServerMsgType.loginAns.val
    let sessionId := s.curSessionId + 1
    let s := { s with
      curSessionId := sessionId, sessionLogined := insert sessionId s.sessionLogined }
    let msg := msg.addOption env.order (.ofInt64 OptionId.sessionId.toU16 sessionId)
    let (msg, frame) := msg.sendData env.order
    s.emit (.loginAns bev msg frame)

/-- The body of the loop of `OnRead`. -/
def handle (hook : Hook) (env : Env) (bev : Bev) (msg : QtpMsg) (s : ServerEnd) : ServerEnd :=
  if msg.head.msgtype = ServerMsgType.heartBeat.val then s.handleBeat env bev msg
  else if msg.head.msgtype = ServerMsgType.login.val then s.handleLogin env bev msg
  -- not logged in: no answer
  else if ¬ s.isLogin env msg then s
  else (s.emit (.onMessage bev msg)).pushAll bev (hook bev msg)

/-- `OnRead`: the server afterwards, and what stays in the input buffer. -/
def onRead (hook : Hook) (env : ℕ → Env) (bev : Bev) (input : List UInt8) (s : ServerEnd) :
    ServerEnd × List UInt8 :=
  match _h : decodeMsgWithHead (env 0).past input with
  | (none, input) => (s, input)
  | (some msg, rest) =>
    onRead hook (fun n => env (n + 1)) bev rest (s.handle hook (env 0) bev msg)
termination_by input.length
decreasing_by exact decodeMsgWithHead_shorter _h

/-- `OnAccept`. -/
def onAccept (bev : Bev) (s : ServerEnd) : ServerEnd := { s with bevSet := s.bevSet.insert bev }

/-- `BEV_EVENT_CONNECTED`. -/
def bevEventConnected : UInt16 := 0x80

/-- `BEV_EVENT_EOF`, `BEV_EVENT_ERROR`, `BEV_EVENT_READING` and `BEV_EVENT_WRITING`. -/
def bevEventClosing : UInt16 := 0x10 ||| 0x20 ||| 0x01 ||| 0x02

/-- `OnEvent`. -/
def onEvent (bev : Bev) (events : UInt16) (s : ServerEnd) : ServerEnd :=
  if events = bevEventConnected then s
  -- the connection leaves the set and is not freed
  else if events &&& bevEventClosing ≠ 0 then { s with bevSet := s.bevSet.erase bev }
  else s

/-- `HandleMsgToClient`: nothing if `bev_set_` is empty, else a write on its first element
in the order of iteration. -/
def handleMsgToClient (begin : IterOrder Bev) (env : Env) (r : Response) (s : ServerEnd) :
    ServerEnd :=
  match begin.order s.bevSet with
  | [] => s
  | bev :: _ => s.emit (.response bev r (r.msg.sendData env.order).2)

/-- `OnLoop`. -/
def onLoop (begin : IterOrder Bev) (env : Env) (s : ServerEnd) : ServerEnd :=
  match s.msgToClients with
  | [] => s
  | r :: rest => { s with msgToClients := rest }.handleMsgToClient begin env r

end ServerEnd

/-- What can happen: a connection, an event on one, a message on one, a turn of the loop. -/
inductive ServerCall
  | accept (bev : Bev)
  | event (bev : Bev) (events : UInt16)
  | frame (bev : Bev) (env : Env) (f : Frame)
  | loop (begin : IterOrder Bev) (env : Env)

namespace ServerEnd

/-- The server afterwards; only valid frames arrive as messages. -/
def step (hook : Hook) (s : ServerEnd) : ServerCall → Option ServerEnd
  | .accept bev => some (s.onAccept bev)
  | .event bev events => some (s.onEvent bev events)
  | .frame bev env f =>
    if f.Valid then some (s.handle hook env bev (QtpMsg.ofFrame env.past f)) else none
  | .loop begin env => some (s.onLoop begin env)

theorem step_frame {f : Frame} (hv : f.Valid) (hook : Hook) (s : ServerEnd) (bev : Bev)
    (env : Env) : s.step hook (.frame bev env f) =
      some (s.handle hook env bev (QtpMsg.ofFrame env.past f)) :=
  if_pos hv

/-! ## What the calls do -/

section Calls

variable {hook : Hook} {env : Env} {bev : Bev} {msg : QtpMsg} {s : ServerEnd}

@[simp] theorem emit_outputs (o : Output) : (s.emit o).outputs = s.outputs ++ [o] := rfl

@[simp] theorem emit_sessionLogined (o : Output) :
    (s.emit o).sessionLogined = s.sessionLogined := rfl

@[simp] theorem pushAll_outputs (msgs : List QtpMsg) :
    (s.pushAll bev msgs).outputs = s.outputs := by
  induction msgs generalizing s with
  | nil => rfl
  | cons m msgs ih => exact ih

@[simp] theorem pushAll_sessionLogined (msgs : List QtpMsg) :
    (s.pushAll bev msgs).sessionLogined = s.sessionLogined := by
  induction msgs generalizing s with
  | nil => rfl
  | cons m msgs ih => exact ih

@[simp] theorem pushAll_curSessionId (msgs : List QtpMsg) :
    (s.pushAll bev msgs).curSessionId = s.curSessionId := by
  induction msgs generalizing s with
  | nil => rfl
  | cons m msgs ih => exact ih

/-- The session an unknown login opens. -/
def openSession (s : ServerEnd) : ServerEnd :=
  { s with
    curSessionId := s.curSessionId + 1
    sessionLogined := insert (s.curSessionId + 1) s.sessionLogined }

/-- What one message can do. -/
theorem handle_cases (hook : Hook) (env : Env) (bev : Bev) (msg : QtpMsg) (s : ServerEnd) :
    (∃ answer frame, s.handle hook env bev msg = s.emit (.heartBeatAns bev answer frame)) ∨
    (s.isLogin env msg = true ∧ ∃ answer frame, answer.opts = msg.opts ∧
      s.handle hook env bev msg = s.emit (.loginAns bev answer frame)) ∨
    (s.isLogin env msg = false ∧ ∃ answer frame,
      answer.opts = msg.opts.set (.ofInt64 OptionId.sessionId.toU16 (s.curSessionId + 1)) ∧
      s.handle hook env bev msg = s.openSession.emit (.loginAns bev answer frame)) ∨
    (s.isLogin env msg = false ∧ s.handle hook env bev msg = s) ∨
    (s.isLogin env msg = true ∧
      s.handle hook env bev msg = (s.emit (.onMessage bev msg)).pushAll bev (hook bev msg)) := by
  unfold handle
  by_cases hbeat : msg.head.msgtype = ServerMsgType.heartBeat.val
  · rw [if_pos hbeat]
    exact .inl ⟨_, _, rfl⟩
  · rw [if_neg hbeat]
    by_cases hlogin : msg.head.msgtype = ServerMsgType.login.val
    · rw [if_pos hlogin, handleLogin]
      -- a login
      cases h : s.isLogin env msg with
      | true =>
        exact .inr (.inl ⟨rfl,
          ((msg.setMsgtype ServerMsgType.loginAns.val).sendData env.order).1, _, rfl, rfl⟩)
      | false => exact .inr (.inr (.inl ⟨rfl, _, _, rfl, rfl⟩))
    · rw [if_neg hlogin]
      -- any other message
      cases h : s.isLogin env msg with
      | true => exact .inr (.inr (.inr (.inr ⟨rfl, rfl⟩)))
      | false => exact .inr (.inr (.inr (.inl ⟨rfl, rfl⟩)))

/-- A login that brings no valid session. -/
theorem handle_login_of_not_isLogin (hmsg : msg.head.msgtype = ServerMsgType.login.val)
    (h : s.isLogin env msg = false) : ∃ answer frame,
      answer.opts = msg.opts.set (.ofInt64 OptionId.sessionId.toU16 (s.curSessionId + 1)) ∧
      s.handle hook env bev msg = s.openSession.emit (.loginAns bev answer frame) := by
  have hne : ServerMsgType.login.val ≠ ServerMsgType.heartBeat.val := by decide
  rw [handle, hmsg, if_neg hne, if_pos rfl, handleLogin, h]
  exact ⟨_, _, rfl, rfl⟩

end Calls

/-! ## The read callback -/

theorem onRead_of_none {hook : Hook} {env : ℕ → Env} {bev : Bev} {input : List UInt8}
    {s : ServerEnd} (h : takeFrame input = none) : s.onRead hook env bev input = (s, input) := by
  have hdec := @decodeMsgWithHead_of_none (env 0).past _ h
  rw [onRead]
  split
  · rename_i h'
    rw [hdec] at h'
    cases h'
    rfl
  · rename_i h'
    rw [hdec] at h'
    cases h'

theorem onRead_of_some {hook : Hook} {env : ℕ → Env} {bev : Bev} {input rest : List UInt8}
    {f : Frame} {s : ServerEnd} (h : takeFrame input = some (f, rest)) :
    s.onRead hook env bev input =
      (s.handle hook (env 0) bev (QtpMsg.ofFrame (env 0).past f)).onRead hook
        (fun n => env (n + 1)) bev rest := by
  have hdec := @decodeMsgWithHead_of_some (env 0).past _ _ _ h
  rw [onRead]
  split
  · rename_i h'
    rw [hdec] at h'
    cases h'
  · rename_i h'
    rw [hdec] at h'
    cases h'
    rfl

/-- The frames a read callback takes out are handled one after another, as calls of their
own. -/
theorem onRead_run (hook : Hook) (env : ℕ → Env) (bev : Bev) (input : List UInt8)
    (s : ServerEnd) :
    ∃ trace, Run (step hook) s trace (s.onRead hook env bev input).1 ∧
      List.Forall₂ (fun e f => ∃ n, e.2 = .frame bev (env n) f) trace
        (frameExtractor.drain input).1 ∧
      (s.onRead hook env bev input).2 = (frameExtractor.drain input).2 := by
  induction input using frameExtractor.drain_induction generalizing env s with
  | stop input h =>
    rw [onRead_of_none h, Extractor.drain_of_none h]
    exact ⟨[], .nil, .nil, rfl⟩
  | step input f rest h ih =>
    have hv : f.Valid := (takeFrame_eq_some_iff.mp h).1
    -- the first frame is a call of its own, the others are a run from where it leads
    obtain ⟨trace, hrun, hframes, hrest⟩ := ih (fun n => env (n + 1))
      (s.handle hook (env 0) bev (QtpMsg.ofFrame (env 0).past f))
    rw [onRead_of_some h, Extractor.drain_of_some h]
    refine ⟨_, hrun.cons (step_frame hv hook s bev (env 0)), ?_, hrest⟩
    exact .cons ⟨0, rfl⟩ (hframes.imp fun _ _ ⟨n, hn⟩ => ⟨n + 1, hn⟩)

end ServerEnd

end SampleTools
