import SampleTools.Library.ProducerQueue
import SampleTools.Linker.PlainMsg

/-!
# The client program

The thread of `main` turns commands into messages and puts them into a queue; the thread of
the callbacks puts heartbeats there, takes messages out and sends them, and reads the answers.
An answer to a login brings the session id that the messages put into the queue later carry.

The queue keeps the messages of one thread in order and takes those of the two threads in any;
what `main` puts into it during `OnLoop` counts as put there before or after.

## Main definitions

* `TestClient`: the state; `ClientFault`: how the program can end
* `TestClient.sendOnMsgType`, `TestClient.rawEnqueue`: the two ways into the queue
* `TestClient.onLoop`, `TestClient.onRead`: the callbacks
* `flushFrames`, `TestClient.onLoopFrames`: what `OnLoop` sends, as frames
* `TestClient.Adds`: what a call may do to the client

## Main results

* `TestClient.sendOnMsgType_spec`, `TestClient.rawEnqueue_spec`: what is put into the queue
* `TestClient.onLoop_eq`: messages that are whole are sent as their frames
* `TestClient.onRead_of_none`, `TestClient.onRead_of_some`: the read callback, frame by frame
-/

namespace SampleTools

open LittleEndian Memory

/-- The commands `main` knows. -/
inductive Command
  | login
  | subscribe
  | unsubscribe
  | queryFormular
  | queryFactor
  | factorCalc
  | factorConf
  | modifyFormularType
  | queryFormularType
  | queryFormularTree
  | clientDisconnected
  deriving DecidableEq, Repr

/-- The message types in `cmdList`. -/
def Command.val : Command → UInt16
  | .login => 1001
  | .subscribe => 1003
  | .unsubscribe => 1006
  | .queryFormular => 1008
  | .queryFactor => 1010
  | .factorCalc => 2000
  | .factorConf => 2002
  | .modifyFormularType => 2004
  | .queryFormularType => 2006
  | .queryFormularTree => 2008
  | .clientDisconnected => 1099

/-- The threads that use the queue. -/
inductive ClientThread
  | main
  | loop
  deriving DecidableEq, Repr

/-- How the program ends: by an exception nothing catches, or by a null pointer it reads. -/
inductive ClientFault
  | parseError
  | nullOption
  deriving DecidableEq, Repr

/-- `TestClient`. -/
structure TestClient where
  sessionId : UInt64 := 0
  lastHeartBeatTime : Int64 := 0
  msgQueue : List (ClientThread × QtpMsg) := []
  fault : Option ClientFault := none

/-- What a command finds: the two files, of lengths that 32 bits can tell, what `json::parse`
accepts, the order of the option map, and what lies past the option block a copy parses. -/
structure CommandEnv where
  sampleCal : List UInt8
  sampleCal_length : sampleCal.length < 2 ^ 32
  factorsMass : List UInt8
  factorsMass_length : factorsMass.length + 1 < 2 ^ 32
  parses : List UInt8 → Bool
  order : IterOrder OptionRequest
  past : ℕ → UInt8
  past' : ℕ → UInt8

/-- What lies past the blocks of a message that is taken out of the queue and sent. -/
structure SendEnv where
  past : ℕ → UInt8
  pastOpt : ℕ → UInt8
  pastData : ℕ → UInt8

/-- What a turn of the loop finds. -/
structure LoopEnv where
  command : CommandEnv
  now : Int64
  send : ℕ → SendEnv

/-- What the handling of one answer finds: past the option block, and past a session option. -/
structure AnswerEnv where
  past : ℕ → UInt8
  pastOption : ℕ → UInt8

/-- The body of a subscription. -/
def subscribeBody : List UInt8 :=
  "\x7b\n                \"formular_name\": \"CashflowZSpread\"\n            \x7d".toUTF8.toList

/-- The body of the end of a subscription. -/
def unsubscribeBody : List UInt8 :=
  "\x7b\n                \"formular_name\": \"CashflowZSpread000\"\n            \x7d".toUTF8.toList

/-- What `snprintf` leaves in a buffer of 512 bytes, before the terminating zero. -/
def disconnectedBody (sessionId : UInt64) : List UInt8 :=
  (("\x7b\"session_id\":" ++ toString sessionId.toInt64.toInt ++ "\x7d").toUTF8.toList).take 511

/-- The loop over the queue of `OnLoop`: what it sends, and what is left. The threads whose
messages `try_dequeue` gives are `picks`; each message is moved into `msg`. -/
def flush (env : ℕ → SendEnv) : List ClientThread → QtpMsg → List (ClientThread × QtpMsg) →
    List UInt8 × List (ClientThread × QtpMsg)
  | [], _, queue => ([], queue)
  | thread :: picks, msg, queue =>
    match takeFirst thread queue with
    | none => flush env picks msg queue
    | some (el, queue) =>
      let msg := (QtpMsg.moveAssign (env 0).past el msg).1
      let (bytes, queue) := flush (fun n => env (n + 1)) picks msg queue
      (msg.sendMsg (env 0).pastOpt (env 0).pastData ++ bytes, queue)

namespace TestClient

/-- `msg.encode()` and `msg_queue_.enqueue(msg)`. -/
def enqueue (env : CommandEnv) (thread : ClientThread) (msg : QtpMsg) (s : TestClient) :
    TestClient :=
  let msg := msg.encode env.order
  { s with msgQueue := s.msgQueue ++ [(thread, msg.copy env.past env.past')] }

/-- `SendOnMsgType`. -/
def sendOnMsgType (env : CommandEnv) (thread : ClientThread) (msgType : UInt16)
    (data : List UInt8) (s : TestClient) : TestClient :=
  let msg := ({} : QtpMsg).setMsgtype msgType
  let msg := msg.addOption env.order (.ofInt64 OptionId.sessionId.toU16 s.sessionId.toInt64)
  let msg := if data ≠ [] then (msg.setData (some data)).2 else msg
  if msgType = Command.factorCalc.val then
    let msg := (msg.setData (some env.sampleCal)).2
    let msg := msg.addOption env.order (.ofInt64 OptionId.reqId.toU16 888888)
    let msg := msg.addOption env.order (.ofInt64 OptionId.serverTime.toU16 123456)
    s.enqueue env thread msg
  else if msgType = Command.subscribe.val then
    s.enqueue env thread (msg.setData (some subscribeBody)).2
  else if msgType = Command.unsubscribe.val then
    s.enqueue env thread (msg.setData (some unsubscribeBody)).2
  else if msgType = Command.factorConf.val then
    let config := env.factorsMass ++ [0]
    if env.parses config then s.enqueue env thread (msg.setData (some config)).2
    -- the exception of `json::parse` leaves `main`
    else { s with fault := some .parseError }
  else if msgType = Command.clientDisconnected.val then
    let msg := (msg.setData (some (disconnectedBody s.sessionId))).2
    { s with sessionId := 0 }.enqueue env thread msg
  else s.enqueue env thread msg

/-- `RawEnqueue`. -/
def rawEnqueue (env : CommandEnv) (num : UInt16) (body : List UInt8) (s : TestClient) :
    TestClient :=
  let body := body ++ [0]
  let msg := ({} : QtpMsg).addOption env.order
    (.ofInt64 OptionId.sessionId.toU16 s.sessionId.toInt64)
  let msg := msg.addOption env.order (.ofInt64 OptionId.reqId.toU16 888888)
  let msg := msg.setMsgtype num
  s.enqueue env .main (msg.setData (some body)).2

/-- The heartbeat of `OnLoop`, more than three seconds after the last one. -/
def heartBeat (env : LoopEnv) (s : TestClient) : TestClient :=
  if 3 < env.now - s.lastHeartBeatTime then
    { s.sendOnMsgType env.command .loop ServerMsgType.heartBeat.val [] with
      lastHeartBeatTime := env.now }
  else s

/-- `OnLoop`: the client afterwards, and the bytes it sends. -/
def onLoop (env : LoopEnv) (picks : List ClientThread) (s : TestClient) :
    TestClient × List UInt8 :=
  let s := s.heartBeat env
  let (bytes, queue) := flush env.send picks {} s.msgQueue
  ({ s with msgQueue := queue }, bytes)

/-- The body of the loop of `OnRead`; other answers than the one to a login are printed. -/
def handle (env : AnswerEnv) (msg : QtpMsg) (s : TestClient) : TestClient :=
  if msg.head.msgtype = ServerMsgType.loginAns.val then
    match msg.getOption OptionId.sessionId.toI64 with
    | none => { s with fault := some .nullOption }
    | some sessionOpt =>
      { s with sessionId := (i64Of (peekN env.pastOption sessionOpt.optionBuf 0 8)).toUInt64 }
  else s

/-- `OnRead`: the client afterwards, and what stays in the input buffer. -/
def onRead (env : ℕ → AnswerEnv) (input : List UInt8) (s : TestClient) :
    TestClient × List UInt8 :=
  match _h : decodeMsgWithHead (env 0).past input with
  | (none, input) => (s, input)
  | (some msg, rest) =>
    let s := s.handle (env 0) msg
    if s.fault ≠ none then (s, rest) else s.onRead (fun n => env (n + 1)) rest
termination_by input.length
decreasing_by exact decodeMsgWithHead_shorter _h

end TestClient

/-! ## What is put into the queue -/

theorem carriedId_addOption_of_ne {msg : QtpMsg} {o : IterOrder OptionRequest} {id : OptionId}
    (hid : OptionId.sessionId.toI64 ≠ idKey id.toU16) (v : Int64) :
    carriedId (msg.addOption o (.ofInt64 id.toU16 v)) = carriedId msg := by
  have hget : (msg.opts.set (.ofInt64 id.toU16 v)).get OptionId.sessionId.toI64 =
      msg.opts.get OptionId.sessionId.toI64 := OptionMap.get_set_of_ne hid
  rw [carriedId, QtpMsg.getOption, QtpMsg.addOption_opts, hget, carriedId, QtpMsg.getOption]

theorem subscribeBody_length : subscribeBody.length < 2 ^ 32 := by decide +kernel

theorem unsubscribeBody_length : unsubscribeBody.length < 2 ^ 32 := by decide +kernel

theorem disconnectedBody_length (sessionId : UInt64) :
    (disconnectedBody sessionId).length < 2 ^ 32 := by
  have hle := List.length_take_le 511
    ("\x7b\"session_id\":" ++ toString sessionId.toInt64.toInt ++ "\x7d").toUTF8.toList
  rw [disconnectedBody]
  omega

namespace TestClient

variable {s : TestClient}

/-- A message with the session id of the client. -/
structure Tagged (s : TestClient) (msg : QtpMsg) : Prop where
  plain : msg.Plain
  id : carriedId msg = some s.sessionId.toInt64

theorem Tagged.setData {msg : QtpMsg} (h : s.Tagged msg) {d : List UInt8}
    (hd : d.length < 2 ^ 32) : s.Tagged (msg.setData (some d)).2 :=
  ⟨h.plain.setData hd, h.id⟩

theorem Tagged.setMsgtype {msg : QtpMsg} (h : s.Tagged msg) (t : UInt16) :
    s.Tagged (msg.setMsgtype t) :=
  ⟨h.plain.setMsgtype t, h.id⟩

theorem Tagged.addReqId {msg : QtpMsg} (h : s.Tagged msg) (o : IterOrder OptionRequest)
    (v : Int64) : s.Tagged (msg.addOption o (.ofInt64 OptionId.reqId.toU16 v)) :=
  ⟨h.plain.addOption o _ v (by decide), (carriedId_addOption_of_ne (by decide) v).trans h.id⟩

theorem Tagged.addServerTime {msg : QtpMsg} (h : s.Tagged msg) (o : IterOrder OptionRequest)
    (v : Int64) : s.Tagged (msg.addOption o (.ofInt64 OptionId.serverTime.toU16 v)) :=
  ⟨h.plain.addOption o _ v (by decide), (carriedId_addOption_of_ne (by decide) v).trans h.id⟩

theorem tagged_addSessionId {msg : QtpMsg} (h : msg.Plain) (o : IterOrder OptionRequest) :
    s.Tagged (msg.addOption o (.ofInt64 OptionId.sessionId.toU16 s.sessionId.toInt64)) :=
  ⟨h.addOption o _ _ (by decide), carriedId_set rfl⟩

/-- A message in the queue that is sent as a plain frame with the session id of the client. -/
structure Sends (s : TestClient) (el : QtpMsg) : Prop where
  whole : el.Whole
  plain : el.frame.Plain
  id : ∀ past, carriedId (QtpMsg.ofFrame past el.frame) = some s.sessionId.toInt64

/-- What a call may do to the client: put messages with its session id into the queue, forget
the session, and end the program. -/
structure Adds (s s' : TestClient) : Prop where
  queue : ∀ e ∈ s'.msgQueue, e ∈ s.msgQueue ∨ s.Sends e.2
  sessionId : s'.sessionId = s.sessionId ∨ s'.sessionId = 0
  fault : s'.fault = s.fault ∨ s'.fault = some .parseError

theorem Adds.refl (s : TestClient) : s.Adds s where
  queue _ he := .inl he
  sessionId := .inl rfl
  fault := .inl rfl

/-- What is put into the queue is sent as `send_data` sends the message. -/
theorem Tagged.sends {msg : QtpMsg} (h : s.Tagged msg) (env : CommandEnv) :
    s.Sends ((msg.encode env.order).copy env.past env.past') := by
  have hframe := QtpMsg.frame_copy_encode h.plain.fits env.order env.past env.past'
  refine ⟨h.plain.copy_encode env.order env.past env.past', ?_, ?_⟩
  · rw [hframe]
    exact h.plain.sendData env.order
  · intro past
    rw [hframe, h.plain.carriedId_frame env.order past, h.id]

theorem Tagged.adds {msg : QtpMsg} (h : s.Tagged msg) (env : CommandEnv) (thread : ClientThread)
    {s' : TestClient} (hid : s'.sessionId = s.sessionId ∨ s'.sessionId = 0)
    (hqueue : s'.msgQueue = s.msgQueue) (hfault : s'.fault = s.fault) :
    s.Adds (s'.enqueue env thread msg) := by
  refine ⟨?_, hid, .inl hfault⟩
  intro e he
  rw [enqueue, hqueue, List.mem_append, List.mem_singleton] at he
  rcases he with he | rfl
  · exact .inl he
  · exact .inr (h.sends env)

theorem sendOnMsgType_spec (env : CommandEnv) (thread : ClientThread) (msgType : UInt16)
    {data : List UInt8} (hdata : data.length < 2 ^ 32) (s : TestClient) :
    s.Adds (s.sendOnMsgType env thread msgType data) := by
  have hnew := tagged_addSessionId (s := s) (QtpMsg.Plain.new.setMsgtype msgType) env.order
  have hmsg : s.Tagged (if data ≠ [] then (((({} : QtpMsg).setMsgtype msgType).addOption env.order
      (.ofInt64 OptionId.sessionId.toU16 s.sessionId.toInt64)).setData (some data)).2 else
      (({} : QtpMsg).setMsgtype msgType).addOption env.order
        (.ofInt64 OptionId.sessionId.toU16 s.sessionId.toInt64)) := by
    split
    · exact hnew.setData hdata
    · exact hnew
  unfold sendOnMsgType
  dsimp only
  split
  · have hcalc := ((hmsg.setData env.sampleCal_length).addReqId env.order
      888888).addServerTime env.order 123456
    exact hcalc.adds env thread (.inl rfl) rfl rfl
  · split
    · exact (hmsg.setData subscribeBody_length).adds env thread (.inl rfl) rfl rfl
    · split
      · exact (hmsg.setData unsubscribeBody_length).adds env thread (.inl rfl) rfl rfl
      · split
        · split
          · have hconfig : (env.factorsMass ++ [0]).length < 2 ^ 32 := by
              rw [List.length_append]
              exact env.factorsMass_length
            exact (hmsg.setData hconfig).adds env thread (.inl rfl) rfl rfl
          · exact ⟨fun _ he => .inl he, .inl rfl, .inr rfl⟩
        · split
          · exact (hmsg.setData (disconnectedBody_length _)).adds env thread (.inr rfl) rfl rfl
          · exact hmsg.adds env thread (.inl rfl) rfl rfl

theorem rawEnqueue_spec (env : CommandEnv) (num : UInt16) {body : List UInt8}
    (hbody : body.length + 1 < 2 ^ 32) (s : TestClient) :
    s.Adds (s.rawEnqueue env num body) := by
  have hmsg := ((tagged_addSessionId (s := s) QtpMsg.Plain.new env.order).addReqId env.order
    888888).setMsgtype num
  have hdata : (body ++ [0]).length < 2 ^ 32 := by
    rw [List.length_append]
    exact hbody
  exact (hmsg.setData hdata).adds env .main (.inl rfl) rfl rfl

theorem heartBeat_spec (env : LoopEnv) (s : TestClient) : s.Adds (s.heartBeat env) := by
  unfold heartBeat
  split
  · have hsend := sendOnMsgType_spec env.command .loop ServerMsgType.heartBeat.val
      (show ([] : List UInt8).length < 2 ^ 32 by decide) s
    exact ⟨hsend.queue, hsend.sessionId, hsend.fault⟩
  · exact .refl s

end TestClient

/-! ## What is sent -/

/-- What the loop over the queue sends, as frames. -/
def flushFrames : List ClientThread → List (ClientThread × QtpMsg) →
    List Frame × List (ClientThread × QtpMsg)
  | [], queue => ([], queue)
  | thread :: picks, queue =>
    match takeFirst thread queue with
    | none => flushFrames picks queue
    | some (el, queue) =>
      let (frames, queue) := flushFrames picks queue
      (el.frame :: frames, queue)

/-- Messages that are whole are sent as their frames. -/
theorem flush_eq {queue : List (ClientThread × QtpMsg)} (hwhole : ∀ e ∈ queue, e.2.Whole)
    (env : ℕ → SendEnv) (picks : List ClientThread) (msg : QtpMsg) :
    flush env picks msg queue = ((flushFrames picks queue).1.flatMap Frame.bytes,
      (flushFrames picks queue).2) := by
  induction picks generalizing env msg queue with
  | nil => rfl
  | cons thread picks ih =>
    rw [flush, flushFrames]
    cases htake : takeFirst thread queue with
    | none => exact ih hwhole env msg
    | some taken =>
      obtain ⟨el, rest⟩ := taken
      have hperm := perm_takeFirst htake
      have hrest : ∀ e ∈ rest, e.2.Whole := by
        intro e he
        exact hwhole e (hperm.mem_iff.mpr (List.mem_cons_of_mem _ he))
      have hel := hwhole _ (hperm.mem_iff.mpr List.mem_cons_self)
      simp only [QtpMsg.sendMsg_moveAssign hel, ih hrest, List.flatMap_cons]

/-- What is sent and what is left was in the queue. -/
theorem flushFrames_mem (picks : List ClientThread) (queue : List (ClientThread × QtpMsg)) :
    (∀ f ∈ (flushFrames picks queue).1, ∃ e ∈ queue, f = e.2.frame) ∧
      ∀ e ∈ (flushFrames picks queue).2, e ∈ queue := by
  induction picks generalizing queue with
  | nil => exact ⟨List.forall_mem_nil _, fun e he => he⟩
  | cons thread picks ih =>
    rw [flushFrames]
    cases htake : takeFirst thread queue with
    | none => exact ih queue
    | some taken =>
      obtain ⟨el, rest⟩ := taken
      have hperm := perm_takeFirst htake
      obtain ⟨hframes, hleft⟩ := ih rest
      refine ⟨?_, fun e he => hperm.mem_iff.mpr (List.mem_cons_of_mem _ (hleft e he))⟩
      intro f hf
      rcases List.mem_cons.mp hf with rfl | hf
      · exact ⟨_, hperm.mem_iff.mpr List.mem_cons_self, rfl⟩
      · obtain ⟨e, he, heq⟩ := hframes f hf
        exact ⟨e, hperm.mem_iff.mpr (List.mem_cons_of_mem _ he), heq⟩

namespace TestClient

/-- `OnLoop`, with the frames it sends. -/
def onLoopFrames (env : LoopEnv) (picks : List ClientThread) (s : TestClient) :
    TestClient × List Frame :=
  let s := s.heartBeat env
  let (frames, queue) := flushFrames picks s.msgQueue
  ({ s with msgQueue := queue }, frames)

theorem onLoop_eq {s : TestClient} (hwhole : ∀ e ∈ s.msgQueue, e.2.Whole) (env : LoopEnv)
    (picks : List ClientThread) :
    s.onLoop env picks =
      ((s.onLoopFrames env picks).1, (s.onLoopFrames env picks).2.flatMap Frame.bytes) := by
  have hqueue : ∀ e ∈ (s.heartBeat env).msgQueue, e.2.Whole := by
    intro e he
    rcases (heartBeat_spec env s).queue e he with he | hsends
    · exact hwhole e he
    · exact hsends.whole
  simp only [onLoop, flush_eq hqueue, onLoopFrames]

/-- What a turn of the loop sends was in the queue, or is its heartbeat. -/
theorem onLoopFrames_spec (env : LoopEnv) (picks : List ClientThread) (s : TestClient) :
    s.Adds (s.onLoopFrames env picks).1 ∧ ∀ f ∈ (s.onLoopFrames env picks).2,
      ∃ e : ClientThread × QtpMsg, f = e.2.frame ∧ (e ∈ s.msgQueue ∨ s.Sends e.2) := by
  have hbeat := heartBeat_spec env s
  obtain ⟨hframes, hleft⟩ := flushFrames_mem picks (s.heartBeat env).msgQueue
  refine ⟨⟨fun e he => hbeat.queue e (hleft e he), hbeat.sessionId, hbeat.fault⟩, ?_⟩
  intro f hf
  obtain ⟨e, he, heq⟩ := hframes f hf
  exact ⟨e, heq, hbeat.queue e he⟩

end TestClient

/-! ## What is read -/

namespace TestClient

variable {env : ℕ → AnswerEnv} {s : TestClient} {input rest : List UInt8} {f : Frame}

theorem onRead_of_none (h : takeFrame input = none) : s.onRead env input = (s, input) := by
  have hdec := @decodeMsgWithHead_of_none (env 0).past _ h
  rw [onRead]
  split
  · rename_i h'
    rw [hdec] at h'
    cases h'
    rfl
  · rename_i h'
    rw [hdec] at h'
    cases h'

theorem onRead_of_some (h : takeFrame input = some (f, rest)) :
    s.onRead env input =
      let s' := s.handle (env 0) (QtpMsg.ofFrame (env 0).past f)
      if s'.fault ≠ none then (s', rest) else s'.onRead (fun n => env (n + 1)) rest := by
  have hdec := @decodeMsgWithHead_of_some (env 0).past _ _ _ h
  rw [onRead]
  split
  · rename_i h'
    rw [hdec] at h'
    cases h'
  · rename_i h'
    rw [hdec] at h'
    cases h'
    rfl

end TestClient

end SampleTools
