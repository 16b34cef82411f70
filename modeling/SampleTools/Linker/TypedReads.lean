import SampleTools.Linker.SignalServer
import SampleTools.Linker.XTcpServer

/-!
# Fixed-size reads of options

The peer chooses how long the payload of an option is. The servers read a session id and a
request id as eight bytes of a payload, and the gateway reads an `OptionRequestId` as the
first twelve bytes of an option block; none of them looks at `option_size`. On a block of
whole records the reads stay inside the options exactly when the options read are long
enough, and which ones are read depends on the type of the message and on the session table.

## Main definitions

* `TypedRead`, `TypedRead.Inside`: a read in the payload of an option
* `ServerEnd.handleReads`, `SignalServer.onMessageReads`: the reads one message causes
* `lastRecord`: the record of a block that `get_option` finds
* `ServerOptionsFit`, `GatewayOptionsFit`: the options that are read are long enough

## Main results

* `handleReads_inside_iff`, `optReads_inside_iff`: when the reads of a server stay inside
* `typed_reads_iff`: both servers
-/

namespace SampleTools

open LittleEndian Memory

/-- A read in the payload of an option; `none` stands for a null pointer. -/
structure TypedRead where
  option : Option OptionRequest
  access : Access

/-- The read finds bytes of the option only. -/
def TypedRead.Inside (r : TypedRead) : Prop :=
  r.access.Within (r.option.elim 0 fun o => o.optionBuf.length)

instance (r : TypedRead) : Decidable r.Inside :=
  inferInstanceAs (Decidable (Access.Within _ _))

/-- `*(int64_t*)option->option_buf`. -/
def read64 (option : Option OptionRequest) : TypedRead := ⟨option, ⟨0, 8⟩⟩

/-! ## The reads of the servers -/

/-- `get_req_id`, with the reads it makes. -/
def getReqId (past : ℕ → UInt8) (msg : QtpMsg) : Int64 × List TypedRead :=
  match msg.getOption OptionId.reqId.toI64 with
  | none => (0, [])
  | some bevOpt => (i64Of (peekN past bevOpt.optionBuf 0 8), [read64 (some bevOpt)])

/-- The reads of `IsLogin`. -/
def ServerEnd.isLoginReads (msg : QtpMsg) : List TypedRead :=
  match msg.getOption OptionId.sessionId.toI64 with
  | none => []
  | some sessionOpt => [read64 (some sessionOpt)]

/-- The reads of the body of the loop of `OnRead`, given those of `onMessage`. -/
def ServerEnd.handleReads (onMessage : QtpMsg → List TypedRead) (env : Env) (msg : QtpMsg)
    (s : ServerEnd) : List TypedRead :=
  if msg.head.msgtype = ServerMsgType.heartBeat.val then []
  -- `HandleLogin` asks `IsLogin` too
  else if msg.head.msgtype = ServerMsgType.login.val then isLoginReads msg
  else if ¬ s.isLogin env msg then isLoginReads msg
  else isLoginReads msg ++ onMessage msg

namespace SignalServer

/-- The reads of `HandleSubscribe`: the option is not compared with a null pointer. -/
def handleSubscribeReads (msg : QtpMsg) : List TypedRead :=
  [read64 (msg.getOption OptionId.sessionId.toI64)]

/-- The reads of `onMessage`: other messages than subscriptions are logged with their request
id. -/
def onMessageReads (past : ℕ → UInt8) (msg : QtpMsg) : List TypedRead :=
  if msg.head.msgtype = FactorMsgT.cmnSubscribe.val then handleSubscribeReads msg
  else (getReqId past msg).2

end SignalServer

/-! ## The options that are read -/

/-- The last record of an id. -/
def lastRecord (rs : List OptionRequest) (i : OptionId) : Option OptionRequest :=
  rs.reverse.find? fun r => idKey r.optionId = i.toI64

/-- The last record of an id, if there is one, has a payload of eight bytes at least. -/
def Holds64 (rs : List OptionRequest) (i : OptionId) : Prop :=
  ∀ r, lastRecord rs i = some r → 8 ≤ r.optionSize.toNat

/-- The options the signal server reads: none on a heartbeat; the session id on all other
messages; and the request id on what is neither a login nor a subscription, if the session
id is in the table. -/
def ServerOptionsFit (sessions : Finset Int64) (head : MsgHead) (rs : List OptionRequest) :
    Prop :=
  head.msgtype = ServerMsgType.heartBeat.val ∨
    Holds64 rs .sessionId ∧
      (head.msgtype = ServerMsgType.login.val ∨ head.msgtype = FactorMsgT.cmnSubscribe.val ∨
        ∀ r, lastRecord rs .sessionId = some r → i64Of (r.optionBuf.take 8) ∈ sessions →
          Holds64 rs .reqId)

/-- The option the gateway reads, except from a message of version 1: the first one. -/
def GatewayOptionsFit (head : MsgHead) (rs : List OptionRequest) : Prop :=
  head.version = 1 ∨ ∀ r, rs.head? = some r → 8 ≤ r.optionSize.toNat

theorem ofFrame_getOption {past : ℕ → UInt8} {f : Frame} (hf : f.Valid)
    {rs : List OptionRequest} (hrs : f.opts = block rs) (i : OptionId) :
    (QtpMsg.ofFrame past f).getOption i.toI64 = lastRecord rs i := by
  rw [QtpMsg.getOption, QtpMsg.ofFrame_opts hf hrs, OptionMap.get_foldl_set,
    OptionMap.get_empty, Option.or_none, lastRecord]

theorem read64_inside_iff (r : OptionRequest) :
    (read64 (some r)).Inside ↔ 8 ≤ r.optionSize.toNat := by
  rw [TypedRead.Inside, read64, Access.Within, Option.elim_some, r.size_eq, Nat.zero_add]

/-! ## The signal server -/

section Server

variable {env : Env} {msg : QtpMsg} {rs : List OptionRequest} {s : ServerEnd}

theorem isLoginReads_inside_iff
    (hget : msg.getOption OptionId.sessionId.toI64 = lastRecord rs .sessionId) :
    (∀ r ∈ ServerEnd.isLoginReads msg, r.Inside) ↔ Holds64 rs .sessionId := by
  rw [ServerEnd.isLoginReads, hget, Holds64]
  cases lastRecord rs .sessionId with
  | none => simp
  | some r => simp [read64_inside_iff]

theorem getReqId_inside_iff (past : ℕ → UInt8)
    (hget : msg.getOption OptionId.reqId.toI64 = lastRecord rs .reqId) :
    (∀ r ∈ (getReqId past msg).2, r.Inside) ↔ Holds64 rs .reqId := by
  rw [getReqId, hget, Holds64]
  cases lastRecord rs .reqId with
  | none => simp
  | some r => simp [read64_inside_iff]

/-- A session id that is read whole decides by itself. -/
theorem isLogin_iff_of_holds64 (hholds : Holds64 rs .sessionId)
    (hget : msg.getOption OptionId.sessionId.toI64 = lastRecord rs .sessionId) :
    s.isLogin env msg = true ↔ ∃ r, lastRecord rs .sessionId = some r ∧
      i64Of (r.optionBuf.take 8) ∈ s.sessionLogined := by
  rw [ServerEnd.isLogin, hget]
  cases hlast : lastRecord rs .sessionId with
  | none => simp
  | some r =>
    have hsize : 0 + 8 ≤ r.optionBuf.length := by
      rw [r.size_eq]
      exact hholds r hlast
    have hpeek : peekN env.pastOption r.optionBuf 0 8 = r.optionBuf.take 8 := by
      rw [peekN_eq_take_drop hsize, List.drop_zero]
    simp [hpeek]

theorem onMessageReads_inside_iff (past : ℕ → UInt8)
    (hsession : msg.getOption OptionId.sessionId.toI64 = lastRecord rs .sessionId)
    (hreq : msg.getOption OptionId.reqId.toI64 = lastRecord rs .reqId)
    (hholds : Holds64 rs .sessionId) (hpresent : ∃ r, lastRecord rs .sessionId = some r) :
    (∀ r ∈ SignalServer.onMessageReads past msg, r.Inside) ↔
      (msg.head.msgtype = FactorMsgT.cmnSubscribe.val ∨ Holds64 rs .reqId) := by
  unfold SignalServer.onMessageReads
  by_cases hsub : msg.head.msgtype = FactorMsgT.cmnSubscribe.val
  -- a subscription reads the session id once more
  · obtain ⟨r, hlast⟩ := hpresent
    have hinside : (read64 (some r)).Inside := (read64_inside_iff r).mpr (hholds r hlast)
    rw [if_pos hsub, SignalServer.handleSubscribeReads, hsession, hlast]
    simp [hsub, hinside]
  · rw [if_neg hsub, getReqId_inside_iff past hreq, or_iff_right hsub]

/-- The reads of one message stay inside the options exactly when those are long enough. -/
theorem handleReads_inside_iff {f : Frame} (hf : f.Valid) (hrs : f.opts = block rs) :
    (∀ r ∈ s.handleReads (SignalServer.onMessageReads env.pastOption) env
        (QtpMsg.ofFrame env.past f), r.Inside) ↔
      ServerOptionsFit s.sessionLogined f.head rs := by
  have hsession := @ofFrame_getOption env.past f hf rs hrs .sessionId
  have hreq := @ofFrame_getOption env.past f hf rs hrs .reqId
  have hfirst := isLoginReads_inside_iff hsession
  unfold ServerEnd.handleReads ServerOptionsFit
  rw [QtpMsg.ofFrame_head]
  by_cases hbeat : f.head.msgtype = ServerMsgType.heartBeat.val
  · simp [hbeat]
  simp only [if_neg hbeat, or_iff_right hbeat]
  by_cases hlogin : f.head.msgtype = ServerMsgType.login.val
  · simp only [if_pos hlogin, hfirst]
    exact (and_iff_left (.inl hlogin)).symm
  simp only [if_neg hlogin, or_iff_right hlogin]
  by_cases hholds : Holds64 rs .sessionId
  · have hgate := @isLogin_iff_of_holds64 env _ _ s hholds hsession
    rw [and_iff_right hholds]
    cases hin : s.isLogin env (QtpMsg.ofFrame env.past f) with
    -- dropped: no id of the table
    | false =>
      rw [hin] at hgate
      simp only [Bool.false_eq_true, not_false_eq_true, if_true, hfirst, hholds, true_iff]
      refine .inr fun r hlast hmem => ?_
      exact absurd (hgate.mpr ⟨r, hlast, hmem⟩) Bool.false_ne_true
    -- handed on to `onMessage`
    | true =>
      obtain ⟨r, hlast, hmem⟩ := hgate.mp hin
      simp only [not_true_eq_false, if_false, List.forall_mem_append, hfirst, hholds, true_and]
      rw [onMessageReads_inside_iff env.pastOption hsession hreq hholds ⟨r, hlast⟩,
        QtpMsg.ofFrame_head]
      exact or_congr_right ⟨fun h _ _ _ => h, fun h => h r hlast hmem⟩
  -- too short: the gate has read it already
  · have hreads : ¬ ∀ r ∈ ServerEnd.isLoginReads (QtpMsg.ofFrame env.past f), r.Inside := by
      rwa [hfirst]
    refine iff_of_false ?_ fun h => hholds h.1
    split
    · exact hreads
    · intro h
      exact hreads fun r hr => h r (List.mem_append_left _ hr)

end Server

/-! ## The gateway -/

/-- The gateway's read stays inside the first option exactly when that is long enough. -/
theorem optReads_inside_iff {f : Frame} (hf : f.Valid) {rs : List OptionRequest}
    (hrs : f.opts = block rs) (now : Int64) (rest : List UInt8) :
    (∀ a ∈ (XTcpServer.iterationOf now f rest).optReads,
        a.Within (rs.head?.elim 0 OptionRequest.recordLen)) ↔ GatewayOptionsFit f.head rs := by
  have hlen : (block rs).length = f.head.optslen.toNat := hrs ▸ hf.1
  unfold GatewayOptionsFit XTcpServer.iterationOf
  by_cases hver : f.head.version = 1
  · simp [hver]
  rw [or_iff_right hver]
  cases rs with
  -- no option, and the block is not read
  | nil =>
    have hempty : f.head.optslen = 0 := UInt16.toNat_inj.mp hlen.symm
    simp [hempty]
  | cons r rs =>
    have hread : f.head.optslen ≠ 0 := by
      intro hempty
      have hpos := r.recordLen_pos
      rw [hempty, block_cons, List.length_append, OptionRequest.bytes_length] at hlen
      simp at hlen
      omega
    simp only [hver, hread, ne_eq, not_false_eq_true, and_self, if_true, List.mem_singleton,
      forall_eq, List.head?_cons, Option.elim_some, Option.some.injEq, forall_eq', Access.Within,
      OptionRequest.recordLen, optionRequestIdSize]
    omega

/-! ## Both servers -/

/-- **Typed reads stay in bounds exactly when the options read are long enough.** For every
frame with a well-formed option block: what the signal server reads of it, in any state, and
what the gateway reads of it, when it is the next frame of a connection. -/
theorem typed_reads_iff {f : Frame} (hf : f.Valid) {rs : List OptionRequest}
    (hrs : f.opts = block rs) (env : Env) (s : ServerEnd) (now : Int64) (rest : List UInt8) :
    ((∀ r ∈ s.handleReads (SignalServer.onMessageReads env.pastOption) env
        (QtpMsg.ofFrame env.past f), r.Inside) ↔
      ServerOptionsFit s.sessionLogined f.head rs) ∧
    ∃ it, XTcpServer.iterate now (f.bytes ++ rest) = some it ∧
      ((∀ a ∈ it.optReads, a.Within (rs.head?.elim 0 OptionRequest.recordLen)) ↔
        GatewayOptionsFit f.head rs) := by
  refine ⟨handleReads_inside_iff hf hrs, XTcpServer.iterationOf now f rest, ?_,
    optReads_inside_iff hf hrs now rest⟩
  rw [XTcpServer.iterate_eq, takeFrame_bytes hf, Option.map_some]

/-- A request in session 1, with a request id. -/
theorem typed_reads_request :
    let f : Frame := ⟨{ msgtype := 1005, optslen := 24 },
      block [.ofInt64 OptionId.sessionId.toU16 1, .ofInt64 OptionId.reqId.toU16 7], []⟩
    let s := (({} : ServerEnd).handle (fun _ _ => []) zeroEnv 0
      (QtpMsg.ofFrame zeroEnv.past loginFrame))
    (s.handleReads (SignalServer.onMessageReads zeroEnv.pastOption) zeroEnv
        (QtpMsg.ofFrame zeroEnv.past f)).length = 2 ∧
      (∀ r ∈ s.handleReads (SignalServer.onMessageReads zeroEnv.pastOption) zeroEnv
        (QtpMsg.ofFrame zeroEnv.past f), r.Inside) ∧
      ∃ it, XTcpServer.iterate 0 (f.bytes ++ []) = some it ∧
        ∀ a ∈ it.optReads, a.Within 12 := by
  intro f s
  have hholds : ∀ i, Holds64 [.ofInt64 OptionId.sessionId.toU16 1,
      .ofInt64 OptionId.reqId.toU16 7] i := by
    intro i r hr
    rcases List.mem_reverse.mp (List.mem_of_find?_eq_some hr) with _ | ⟨_, _ | ⟨_, _ | _⟩⟩
    · exact Nat.le_refl 8
    · exact Nat.le_refl 8
  obtain ⟨hserver, it, hit, hgateway⟩ := typed_reads_iff (f := f) (by decide) rfl zeroEnv s 0 []
  refine ⟨by decide +kernel, hserver.mpr (.inr ⟨hholds _, .inr (.inr fun _ _ _ => hholds _)⟩),
    it, hit, hgateway.mpr (.inr ?_)⟩
  rintro r ⟨⟩
  exact Nat.le_refl 8

/-- A request whose session id has one byte, on a new server; and a heartbeat with an empty
option, at the gateway. -/
theorem typed_reads_short_options :
    let f : Frame := ⟨{ msgtype := 1003, optslen := 5 },
      block [⟨OptionId.sessionId.toU16, 1, [1], rfl⟩], []⟩
    let g : Frame := ⟨{ msgtype := 101, optslen := 4 },
      block [⟨OptionId.reqId.toU16, 0, [], rfl⟩], []⟩
    f.Valid ∧ ¬ (∀ r ∈ ({} : ServerEnd).handleReads
        (SignalServer.onMessageReads zeroEnv.pastOption) zeroEnv
        (QtpMsg.ofFrame zeroEnv.past f), r.Inside) ∧
      g.Valid ∧ ∃ it, XTcpServer.iterate 0 g.bytes = some it ∧
        it.optReads = [⟨0, 12⟩] ∧ g.opts.length = 4 :=
  ⟨by decide, by decide +kernel, by decide, _, rfl, rfl, rfl⟩

end SampleTools
