import SampleTools.Linker.Sessions

/-!
# The signal server

`SignalServer` answers a subscription whose body is JSON; every answer says that it
failed. The answer is the request's message with another type and body, put into the
queue. `HandleMsgToClient` writes the front of the queue on the first connection of
`bev_set_`, whoever asked.

## Main definitions

* `SignalServer.onMessage`: the override
* `ServerEnd.written`: the responses written so far, each with its connection
* `LoopToRequester`: the first connection is the one that asked

## Main results

* `Numbered.of_run`: no response is written twice
* `OneClient.loopToRequester_of_run`: with one connection, the first connection is that one
* `responses_iff`: when every response is written on the connection that asked
-/

namespace SampleTools

/-- `FactorMsgT`, the values the server tells apart or writes. -/
inductive FactorMsgT
  | cmnSubscribe
  | cmnSubscribeAns
  deriving DecidableEq, Repr

/-- The enumeration values. -/
def FactorMsgT.val : FactorMsgT → UInt16
  | .cmnSubscribe => 1003
  | .cmnSubscribeAns => 1004

namespace SignalServer

/-- `ResponseMsg`: the message it pushes. -/
def responseMsg (msg : QtpMsg) (msgType : UInt16) (content : String) : QtpMsg :=
  ((msg.setMsgtype msgType).setData (some (content.toUTF8.toList ++ [0]))).2

/-- `HandleSubscribe`: what it pushes; `parses` tells whether `json::parse` succeeds. -/
def handleSubscribe (parses : List UInt8 → Bool) (msg : QtpMsg) : List QtpMsg :=
  if parses msg.dataBytes then [responseMsg msg FactorMsgT.cmnSubscribeAns.val "failed."] else []

/-- `onMessage`. -/
def onMessage (parses : List UInt8 → Bool) : Hook := fun _ msg =>
  if msg.head.msgtype = FactorMsgT.cmnSubscribe.val then handleSubscribe parses msg else []

end SignalServer

/-! ## Responses in the queue and written -/

/-- A written response with its connection. -/
def Output.written : Output → Option (Bev × Response)
  | .response bev r _ => some (bev, r)
  | _ => none

namespace ServerEnd

/-- The responses written so far. -/
def written (s : ServerEnd) : List (Bev × Response) := s.outputs.filterMap Output.written

/-- The response a call writes. -/
def writtenBy (s : ServerEnd) : ServerCall → List (Bev × Response)
  | .loop begin _ =>
    match s.msgToClients, begin.order s.bevSet with
    | r :: _, bev :: _ => [(bev, r)]
    | _, _ => []
  | _ => []

/-- If a turn of the loop finds a response and a connection, the first connection is the
one that asked for the response. -/
def LoopToRequester (s : ServerEnd) : ServerCall → Prop
  | .loop begin _ =>
    ∀ r ∈ s.msgToClients.head?, ∀ bev ∈ (begin.order s.bevSet).head?, bev = r.requester
  | _ => True

instance (s : ServerEnd) (c : ServerCall) : Decidable (s.LoopToRequester c) := by
  unfold LoopToRequester
  cases c <;> infer_instance

theorem forall_writtenBy_iff (s : ServerEnd) (c : ServerCall) :
    (∀ w ∈ s.writtenBy c, w.1 = w.2.requester) ↔ s.LoopToRequester c := by
  cases c with
  | accept | event | frame => simp [writtenBy, LoopToRequester]
  | loop begin env =>
    simp only [writtenBy, LoopToRequester]
    cases s.msgToClients with
    | nil => simp
    | cons r rest => cases hbev : begin.order s.bevSet <;> simp

variable {hook : Hook} {s s' : ServerEnd}

theorem written_emit (s : ServerEnd) (o : Output) :
    (s.emit o).written = s.written ++ o.written.toList := by
  rw [written, emit_outputs, List.filterMap_append, written]
  cases h : o.written <;> simp [h]

theorem written_emit_of_none {o : Output} (ho : o.written = none) :
    (s.emit o).written = s.written := by
  rw [written_emit, ho, Option.toList_none, List.append_nil]

@[simp] theorem pushAll_written (bev : Bev) (msgs : List QtpMsg) :
    (s.pushAll bev msgs).written = s.written := by
  rw [written, pushAll_outputs, written]

theorem written_handle (hook : Hook) (env : Env) (bev : Bev) (msg : QtpMsg) (s : ServerEnd) :
    (s.handle hook env bev msg).written = s.written := by
  rcases s.handle_cases hook env bev msg with ⟨a, fr, heq⟩ | ⟨-, a, fr, -, heq⟩ |
    ⟨-, a, fr, -, heq⟩ | ⟨-, heq⟩ | ⟨-, heq⟩
  · rw [heq, written_emit_of_none rfl]
  · rw [heq, written_emit_of_none rfl]
  · rw [heq, written_emit_of_none rfl]
    rfl
  · rw [heq]
  · rw [heq, pushAll_written, written_emit_of_none rfl]

theorem written_step {c : ServerCall} (hs : s.step hook c = some s') :
    s'.written = s.written ++ s.writtenBy c := by
  cases c with
  | accept bev =>
    cases hs
    exact (List.append_nil _).symm
  | event bev events =>
    cases hs
    refine Eq.trans ?_ (List.append_nil _).symm
    unfold onEvent
    split
    · rfl
    · split <;> rfl
  | frame bev env f =>
    simp only [step] at hs
    split at hs
    · cases hs
      exact (written_handle hook env bev _ s).trans (List.append_nil _).symm
    · cases hs
  | loop begin env =>
    cases hs
    unfold onLoop writtenBy
    cases hq : s.msgToClients with
    | nil => simp
    | cons r rest =>
      unfold handleMsgToClient
      dsimp only
      cases begin.order s.bevSet with
      | nil => exact (List.append_nil _).symm
      | cons bev bevs =>
        rw [written_emit]
        rfl

/-- What was written is what the calls of the run wrote. -/
theorem written_of_run {trace : List (ServerEnd × ServerCall)}
    (hrun : Run (step hook) {} trace s) :
    s.written = trace.flatMap fun e => e.1.writtenBy e.2 := by
  induction hrun with
  | nil => rfl
  | snoc _ hs ih => rw [written_step hs, ih, List.flatMap_append, List.flatMap_singleton]

end ServerEnd

/-- The numbers of the responses written, then of those in the queue. -/
def ServerEnd.numbers (s : ServerEnd) : List ℕ :=
  (s.written.map fun w => w.2.id) ++ s.msgToClients.map Response.id

/-- Pushes are numbered: every response is in the queue or written, at most once. -/
structure Numbered (s : ServerEnd) : Prop where
  nodup : s.numbers.Nodup
  below : ∀ i ∈ s.numbers, i < s.pushed

namespace Numbered

variable {hook : Hook} {s s' : ServerEnd}

theorem empty : Numbered {} := ⟨List.nodup_nil, List.forall_mem_nil _⟩

theorem of_sublist (h : Numbered s) (hsub : s'.numbers.Sublist s.numbers)
    (hpushed : s'.pushed = s.pushed) : Numbered s' :=
  ⟨h.nodup.sublist hsub, fun i hi => hpushed ▸ h.below i (hsub.subset hi)⟩

theorem of_eq (h : Numbered s) (hwritten : s'.written = s.written)
    (hqueue : s'.msgToClients = s.msgToClients) (hpushed : s'.pushed = s.pushed) :
    Numbered s' := by
  have hnumbers : s'.numbers = s.numbers := by
    rw [ServerEnd.numbers, hwritten, hqueue, ServerEnd.numbers]
  exact h.of_sublist (hnumbers ▸ List.Sublist.refl _) hpushed

theorem pushMsgToClient (h : Numbered s) (bev : Bev) (msg : QtpMsg) :
    Numbered (s.pushMsgToClient bev msg) := by
  -- the next number goes to the end of the queue
  have hnumbers : (s.pushMsgToClient bev msg).numbers = s.numbers ++ [s.pushed] := by
    simp [ServerEnd.numbers, ServerEnd.pushMsgToClient, ServerEnd.written]
  refine ⟨?_, ?_⟩
  · rw [hnumbers, List.nodup_append]
    refine ⟨h.nodup, List.nodup_singleton _, ?_⟩
    rintro i hi _ hj rfl
    exact absurd (List.mem_singleton.mp hj) (h.below i hi).ne
  · intro i hi
    rw [hnumbers, List.mem_append, List.mem_singleton] at hi
    rcases hi with hi | rfl
    · exact Nat.lt_succ_of_lt (h.below i hi)
    · exact Nat.lt_succ_self _

theorem pushAll (h : Numbered s) (bev : Bev) (msgs : List QtpMsg) :
    Numbered (s.pushAll bev msgs) :=
  List.foldlRecOn msgs _ h fun _ h m _ => h.pushMsgToClient bev m

theorem emit (h : Numbered s) {o : Output} (ho : o.written = none) : Numbered (s.emit o) :=
  h.of_eq (ServerEnd.written_emit_of_none ho) rfl rfl

theorem handle (h : Numbered s) (hook : Hook) (env : Env) (bev : Bev) (msg : QtpMsg) :
    Numbered (s.handle hook env bev msg) := by
  rcases s.handle_cases hook env bev msg with ⟨a, fr, heq⟩ | ⟨-, a, fr, -, heq⟩ |
    ⟨-, a, fr, -, heq⟩ | ⟨-, heq⟩ | ⟨-, heq⟩
  · exact heq ▸ h.emit rfl
  · exact heq ▸ h.emit rfl
  · have hopen : Numbered s.openSession := h.of_eq rfl rfl rfl
    exact heq ▸ hopen.emit rfl
  · rwa [heq]
  · exact heq ▸ (h.emit rfl).pushAll bev (hook bev msg)

/-- A response leaves the queue, and is written or dropped. -/
theorem onLoop (h : Numbered s) (begin : IterOrder Bev) (env : Env) :
    Numbered (s.onLoop begin env) := by
  unfold ServerEnd.onLoop
  split
  · exact h
  · rename_i r rest hq
    unfold ServerEnd.handleMsgToClient
    split
    · refine h.of_sublist ?_ rfl
      -- dropped: its number is gone
      simp only [ServerEnd.numbers, hq]
      exact (List.sublist_cons_self _ _).append_left _
    · refine h.of_sublist ?_ rfl
      -- written: its number stays between the others
      simp only [ServerEnd.numbers, ServerEnd.written_emit, hq, List.map_append,
        List.append_assoc]
      exact List.Sublist.refl _

theorem onEvent (h : Numbered s) (bev : Bev) (events : UInt16) :
    Numbered (s.onEvent bev events) := by
  unfold ServerEnd.onEvent
  split
  · exact h
  · split
    · exact h.of_eq rfl rfl rfl
    · exact h

theorem step (h : Numbered s) {c : ServerCall} (hs : s.step hook c = some s') : Numbered s' := by
  cases c with
  | accept bev =>
    cases hs
    exact h.of_eq rfl rfl rfl
  | event bev events =>
    cases hs
    exact h.onEvent bev events
  | frame bev env f =>
    simp only [ServerEnd.step] at hs
    split at hs
    · cases hs
      exact h.handle hook env bev _
    · cases hs
  | loop begin env =>
    cases hs
    exact h.onLoop begin env

theorem of_run {trace : List (ServerEnd × ServerCall)}
    (hrun : Run (ServerEnd.step hook) {} trace s) : Numbered s :=
  hrun.invariant empty fun h hs => h.step hs

end Numbered

/-! ## One connection -/

/-- Connections are accepted, and messages arrive, on one connection only. -/
def ServerCall.OnlyOn (bev : Bev) : ServerCall → Prop
  | .accept b => b = bev
  | .frame b _ _ => b = bev
  | .event _ _ => True
  | .loop _ _ => True

/-- No connection is open but one, which asked for everything in the queue. -/
structure OneClient (bev : Bev) (s : ServerEnd) : Prop where
  connections : ∀ b ∈ s.bevSet, b = bev
  requesters : ∀ r ∈ s.msgToClients, r.requester = bev

namespace OneClient

variable {hook : Hook} {s s' : ServerEnd} {bev : Bev}

theorem empty (bev : Bev) : OneClient bev {} :=
  ⟨List.forall_mem_nil _, List.forall_mem_nil _⟩

theorem of_subset (h : OneClient bev s) (hset : s'.bevSet ⊆ s.bevSet)
    (hqueue : s'.msgToClients ⊆ s.msgToClients) : OneClient bev s' :=
  ⟨fun b hb => h.connections b (hset hb), fun r hr => h.requesters r (hqueue hr)⟩

theorem pushAll (h : OneClient bev s) (msgs : List QtpMsg) :
    OneClient bev (s.pushAll bev msgs) := by
  refine List.foldlRecOn msgs _ h fun s h m _ => ⟨h.connections, fun r hr => ?_⟩
  rcases List.mem_append.mp hr with hr | hr
  · exact h.requesters r hr
  · rw [List.mem_singleton.mp hr]

theorem handle (h : OneClient bev s) (hook : Hook) (env : Env) (msg : QtpMsg) :
    OneClient bev (s.handle hook env bev msg) := by
  rcases s.handle_cases hook env bev msg with ⟨a, fr, heq⟩ | ⟨-, a, fr, -, heq⟩ |
    ⟨-, a, fr, -, heq⟩ | ⟨-, heq⟩ | ⟨-, heq⟩
  · exact heq ▸ ⟨h.connections, h.requesters⟩
  · exact heq ▸ ⟨h.connections, h.requesters⟩
  · exact heq ▸ ⟨h.connections, h.requesters⟩
  · rwa [heq]
  · have hemit : OneClient bev (s.emit (.onMessage bev msg)) := ⟨h.connections, h.requesters⟩
    exact heq ▸ hemit.pushAll (hook bev msg)

theorem step (h : OneClient bev s) {c : ServerCall} (hc : c.OnlyOn bev)
    (hs : s.step hook c = some s') : OneClient bev s' := by
  cases c with
  | accept b =>
    cases hs
    obtain rfl : b = bev := hc
    refine ⟨fun b' hb' => ?_, h.requesters⟩
    rcases List.mem_insert_iff.mp hb' with rfl | hb'
    · rfl
    · exact h.connections b' hb'
  | event b events =>
    cases hs
    refine h.of_subset ?_ ?_
    · unfold ServerEnd.onEvent
      split_ifs
      · exact List.Subset.refl _
      · exact List.erase_subset
      · exact List.Subset.refl _
    · unfold ServerEnd.onEvent
      split_ifs <;> exact List.Subset.refl _
  | frame b env f =>
    obtain rfl : b = bev := hc
    obtain ⟨-, heq⟩ := Option.ite_none_right_eq_some.mp hs
    cases heq
    exact h.handle hook env _
  | loop begin env =>
    cases hs
    unfold ServerEnd.onLoop
    split
    · exact h
    next r rest hq =>
      refine h.of_subset ?_ ?_
      · unfold ServerEnd.handleMsgToClient
        split <;> exact List.Subset.refl _
      · rw [hq]
        unfold ServerEnd.handleMsgToClient
        split <;> exact List.subset_cons_self _ _

theorem loopToRequester (h : OneClient bev s) (c : ServerCall) : s.LoopToRequester c := by
  cases c with
  | accept | event | frame => trivial
  | loop begin env =>
    intro r hr b hb
    have hopen := begin.mem_order.mp (List.mem_of_mem_head? hb)
    rw [h.connections b hopen, h.requesters r (List.mem_of_mem_head? hr)]

/-- As long as all happens on one connection, every turn of the loop finds the one that asked. -/
theorem loopToRequester_of_run {trace : List (ServerEnd × ServerCall)}
    (hrun : Run (ServerEnd.step hook) {} trace s) (hone : ∀ e ∈ trace, e.2.OnlyOn bev) :
    ∀ e ∈ trace, e.1.LoopToRequester e.2 := by
  have hkeep : ∀ {s : ServerEnd} {c : ServerCall} {s' : ServerEnd}, OneClient bev s →
      c.OnlyOn bev → s.step hook c = some s' → OneClient bev s' := fun h hc hs => h.step hc hs
  obtain ⟨hstates, -⟩ := hrun.forall_of_steps (.empty bev) hkeep hone
  exact fun e he => (hstates e he).loopToRequester e.2

end OneClient

/-- **Responses reach the requester exactly when the first connection asked.** In a run of
a signal server, every response is written at most once and only on the connection of its
request, exactly when each turn of the loop that writes finds that connection first. -/
theorem responses_iff {parses : List UInt8 → Bool} {trace : List (ServerEnd × ServerCall)}
    {s : ServerEnd} (hrun : Run (ServerEnd.step (SignalServer.onMessage parses)) {} trace s) :
    ((s.written.map fun w => w.2.id).Nodup ∧ ∀ w ∈ s.written, w.1 = w.2.requester) ↔
      ∀ e ∈ trace, e.1.LoopToRequester e.2 := by
  have hnodup : (s.written.map fun w => w.2.id).Nodup :=
    (Numbered.of_run hrun).nodup.of_append_left
  rw [and_iff_right hnodup, ServerEnd.written_of_run hrun, List.forall_mem_flatMap]
  exact forall₂_congr fun e _ => e.1.forall_writtenBy_iff e.2

/-! ## A subscription -/

/-- A subscription in session 1, with the body `{}`. -/
def subscribeFrame : Frame :=
  ⟨{ msgtype := 1003, optslen := 12, datalen := 2 },
    block [.ofInt64 OptionId.sessionId.toU16 1], [123, 125]⟩

theorem subscribeFrame_valid : subscribeFrame.Valid := by decide

/-- A parser that accepts that body. -/
def parsesEmptyObject (body : List UInt8) : Bool := body = [123, 125]

/-- A subscription on `bev`, after a login, on a server with some connections; then a turn
of the loop. -/
def subscription (bev : Bev) (begin : IterOrder Bev) (s : ServerEnd) : ServerEnd :=
  ((s.handle (SignalServer.onMessage parsesEmptyObject) zeroEnv bev
      (QtpMsg.ofFrame zeroEnv.past loginFrame)).handle
    (SignalServer.onMessage parsesEmptyObject) zeroEnv bev
      (QtpMsg.ofFrame zeroEnv.past subscribeFrame)).onLoop begin zeroEnv

theorem subscription_run {trace : List (ServerEnd × ServerCall)} {s : ServerEnd}
    (hrun : Run (ServerEnd.step (SignalServer.onMessage parsesEmptyObject)) {} trace s)
    (bev : Bev) (begin : IterOrder Bev) :
    ∃ trace', Run (ServerEnd.step (SignalServer.onMessage parsesEmptyObject)) {}
        (trace ++ trace') (subscription bev begin s) ∧
      trace'.map Prod.snd = [.frame bev zeroEnv loginFrame, .frame bev zeroEnv subscribeFrame,
        .loop begin zeroEnv] :=
  ⟨_, hrun.trans (((Run.nil.snoc (ServerEnd.step_frame loginFrame_valid _ _ bev zeroEnv)).snoc
    (ServerEnd.step_frame subscribeFrame_valid _ _ bev zeroEnv)).snoc
      (a := .loop begin zeroEnv) rfl), rfl⟩

/-- On the only connection. -/
theorem responses_one_connection :
    let s := subscription 1 .stored (ServerEnd.onAccept 1 {})
    s.written.length = 1 ∧ (s.written.map fun w => w.2.id).Nodup ∧
      ∀ w ∈ s.written, w.1 = w.2.requester := by
  have hrun : Run (ServerEnd.step (SignalServer.onMessage parsesEmptyObject)) {} _ _ :=
    ((Run.nil.snoc (a := .accept 1) rfl).snoc
      (ServerEnd.step_frame loginFrame_valid _ _ 1 zeroEnv)).snoc
        (ServerEnd.step_frame subscribeFrame_valid _ _ 1 zeroEnv) |>.snoc
          (a := .loop .stored zeroEnv) rfl
  exact ⟨by decide +kernel, (responses_iff hrun).mpr (by decide +kernel)⟩

/-- On the second of two connections: the response is written on the first. -/
theorem responses_two_connections :
    ∃ trace, Run (ServerEnd.step (SignalServer.onMessage parsesEmptyObject)) {} trace
        (subscription 2 .reversed ((ServerEnd.onAccept 1 {}).onAccept 2)) ∧
      trace.map Prod.snd = [.accept 1, .accept 2, .frame 2 zeroEnv loginFrame,
        .frame 2 zeroEnv subscribeFrame, .loop .reversed zeroEnv] ∧
      ((subscription 2 .reversed ((ServerEnd.onAccept 1 {}).onAccept 2)).written.map
        fun w => (w.1, w.2.requester)) = [(1, 2)] := by
  obtain ⟨trace', hrun, hcalls⟩ := subscription_run
    ((Run.nil.snoc (a := .accept 1) rfl).snoc (a := .accept 2) rfl) 2 .reversed
  refine ⟨_, hrun, ?_, by decide +kernel⟩
  rw [List.map_append, hcalls]
  rfl

end SampleTools
