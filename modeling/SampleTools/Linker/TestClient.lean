import SampleTools.Library.Run
import SampleTools.Tcp.RoundTrip

/-!
# Two ways to send a message

`send_data` encodes the options and stores both lengths in the head before it writes.
`TestClient::SendMsg` writes the head, the option block and the data as it finds them. The two
agree while the head and the block are in step with the options and the data; `add_option` and
`set_data` keep them so, and `remove_option`, `reset_option` and `reset_body` do not.

An option map is iterated in one order from one change of it to the next.

## Main definitions

* `QtpMsg.sendMsg`, `QtpMsg.sendReads`: the bytes `SendMsg` writes, and its reads
* `Outgoing`, `OutgoingCall`: a message being built, and the calls that build it
* `Outgoing.Agrees`: both ways write the same, and `SendMsg` reads inside the buffers
* `Outgoing.InStep`: the head and the block are in step

## Main results

* `Outgoing.agrees_iff_inStep`: the two ways agree exactly on messages in step
* `Outgoing.send_paths_iff`: which calls keep them in agreement
-/

namespace SampleTools

open LittleEndian Memory

namespace QtpMsg

/-- `SendMsg`: the bytes it writes; `pastOpt` and `pastData` are what lies behind the two
buffers. -/
def sendMsg (pastOpt pastData : ℕ → UInt8) (m : QtpMsg) : List UInt8 :=
  m.head.bytes ++
    (if 0 < m.head.optslen.toNat then
      peekN pastOpt (cells m.optBuf) 0 m.head.optslen.toNat else []) ++
    (if 0 < m.head.datalen.toNat then
      peekN pastData (cells m.dataBuf) 0 m.head.datalen.toNat else [])

/-- The reads of `SendMsg` stay in the option buffer and in the data buffer. -/
def SendReadsInside (m : QtpMsg) : Prop :=
  (0 < m.head.optslen.toNat →
    Access.Within (cells m.optBuf).length ⟨0, m.head.optslen.toNat⟩) ∧
  (0 < m.head.datalen.toNat →
    Access.Within (cells m.dataBuf).length ⟨0, m.head.datalen.toNat⟩)

instance (m : QtpMsg) : Decidable m.SendReadsInside :=
  inferInstanceAs (Decidable ((_ → _) ∧ (_ → _)))

end QtpMsg

/-- A message being built, with the order in which its option map is iterated. -/
structure Outgoing where
  msg : QtpMsg := {}
  order : IterOrder OptionRequest := .stored

/-- A call on a message being built; a change of the option map gives it a new order. -/
inductive OutgoingCall
  | setMsgtype (msgType : UInt16)
  | setData (data : Option (List UInt8))
  | addOption (o : IterOrder OptionRequest) (request : OptionRequest)
  | removeOption (o : IterOrder OptionRequest) (optionId : Int64)
  | resetBody
  | resetOption

namespace Outgoing

/-- The message after a call. -/
def call (s : Outgoing) : OutgoingCall → Outgoing
  | .setMsgtype t => { s with msg := s.msg.setMsgtype t }
  | .setData d => { s with msg := (s.msg.setData d).2 }
  | .addOption o r => ⟨s.msg.addOption o r, o⟩
  | .removeOption o i => if (s.msg.removeOption i).1 then ⟨(s.msg.removeOption i).2, o⟩ else s
  | .resetBody => { s with msg := s.msg.resetBody }
  | .resetOption => { s with msg := s.msg.resetOption }

/-- Every call is possible. -/
def step (s : Outgoing) (a : OutgoingCall) : Option Outgoing := some (s.call a)

/-- The encoded options fit the head. -/
def InLimit (s : Outgoing) : Prop := s.msg.opts.encodedLen ≤ 65535

instance (s : Outgoing) : Decidable s.InLimit :=
  inferInstanceAs (Decidable (_ ≤ _))

/-- Both ways of sending write the same bytes, and `SendMsg` reads inside the buffers. -/
def Agrees (s : Outgoing) : Prop :=
  (∀ pastOpt pastData,
    s.msg.sendMsg pastOpt pastData = (s.msg.sendData s.order).2.bytes) ∧ s.msg.SendReadsInside

/-- The head and the block are in step with the options. -/
structure OptsInStep (s : Outgoing) : Prop where
  optslen : s.msg.head.optslen.toNat = s.msg.opts.encodedLen
  fits : s.msg.opts.encodedLen ≤ (cells s.msg.optBuf).length
  block : (cells s.msg.optBuf).take s.msg.opts.encodedLen =
    block (s.order.order s.msg.opts.requests)

/-- The head is in step with the data. -/
def DataInStep (s : Outgoing) : Prop := s.msg.head.datalen.toNat = s.msg.dataLen

/-! ## What agreement means -/

variable {s s' : Outgoing}

theorem peekN_of_pos (past : ℕ → UInt8) (b : List UInt8) (n : ℕ) :
    (if 0 < n then peekN past b 0 n else []) = peekN past b 0 n := by
  split
  · rfl
  next h => rw [Nat.eq_zero_of_not_pos h, peekN, List.range_zero, List.map_nil]

theorem sendMsg_length (pastOpt pastData : ℕ → UInt8) (m : QtpMsg) :
    (m.sendMsg pastOpt pastData).length =
      msgHeadSize + m.head.optslen.toNat + m.head.datalen.toNat := by
  rw [QtpMsg.sendMsg, peekN_of_pos, peekN_of_pos, List.length_append, List.length_append,
    MsgHead.bytes_length, peekN_length, peekN_length]

theorem sendReadsInside_iff (m : QtpMsg) :
    m.SendReadsInside ↔ m.head.optslen.toNat ≤ (cells m.optBuf).length ∧
      m.head.datalen.toNat ≤ (cells m.dataBuf).length := by
  simp only [QtpMsg.SendReadsInside, Access.Within]
  omega

/-- Two ways of sending agree exactly on messages in step. -/
theorem agrees_iff_inStep (hfit : s.msg.BuffersFit) (hlimit : s.InLimit) :
    s.Agrees ↔ s.OptsInStep ∧ s.DataInStep := by
  have hsent := QtpMsg.sendData_snd s.order hfit
  have hdata := QtpMsg.dataBytes_length hfit
  have hblock := s.msg.opts.block_order_length s.order
  have hword : (UInt16.ofNat s.msg.opts.encodedLen).toNat = s.msg.opts.encodedLen :=
    UInt16.toNat_ofNat_of_lt' (Nat.lt_succ_of_le hlimit)
  rw [Agrees, sendReadsInside_iff, hsent]
  constructor
  · rintro ⟨hbytes, hopt, hdat⟩
    have hbytes := hbytes (fun _ => 0) fun _ => 0
    rw [QtpMsg.sendMsg, peekN_of_pos, peekN_of_pos, Frame.bytes, List.append_assoc,
      List.append_assoc] at hbytes
    -- the heads are equal, so the same number of option bytes follows
    obtain ⟨hhead, hrest⟩ := List.append_inj hbytes (by simp)
    have hheads := congrArg MsgHead.ofBytes hhead
    rw [← List.append_nil (MsgHead.bytes _), MsgHead.ofBytes_bytes,
      ← List.append_nil (MsgHead.bytes _), MsgHead.ofBytes_bytes] at hheads
    have hoptslen : s.msg.head.optslen.toNat = s.msg.opts.encodedLen := by
      rw [hheads]
      exact hword
    obtain ⟨hopts, hdatas⟩ := List.append_inj hrest (by
      rw [peekN_length, hblock, hoptslen])
    refine ⟨⟨hoptslen, hoptslen ▸ hopt, ?_⟩, ?_⟩
    · dsimp only at hopts
      rw [← hopts, hoptslen, peekN_eq_take_drop (by omega), List.drop_zero]
    · have hlen := congrArg List.length hdatas
      rw [peekN_length, hdata] at hlen
      exact hlen
  · rintro ⟨⟨hoptslen, hfits, hopts⟩, hdatalen⟩
    rw [DataInStep] at hdatalen
    refine ⟨fun pastOpt pastData => ?_, hoptslen ▸ hfits, hdatalen ▸ hfit.data⟩
    have hhead : ({ s.msg.head with
        optslen := UInt16.ofNat s.msg.opts.encodedLen
        datalen := UInt32.ofNat s.msg.dataLen } : MsgHead) = s.msg.head := by
      rw [← hoptslen, ← hdatalen, UInt16.ofNat_toNat, UInt32.ofNat_toNat]
    have hdat := hfit.data
    rw [QtpMsg.sendMsg, peekN_of_pos, peekN_of_pos, hoptslen, hdatalen,
      peekN_eq_take_drop (by omega), peekN_eq_take_drop (by omega), List.drop_zero,
      List.drop_zero, hopts, hhead, Frame.bytes]
    rfl

/-! ## What the calls do -/

/-- A call after which the head is in step with the data: what is dropped was empty, and new
data is of a length that 32 bits hold. -/
def KeepsData (s : Outgoing) : OutgoingCall → Prop
  | .setData (some d) => d.length < 2 ^ 32
  | .setData none | .resetBody => s.msg.head.datalen = 0
  | .setMsgtype _ | .addOption .. | .removeOption .. | .resetOption => True

instance (s : Outgoing) : (a : OutgoingCall) → Decidable (s.KeepsData a)
  | .setData (some d) => inferInstanceAs (Decidable (d.length < 2 ^ 32))
  | .setData none | .resetBody => inferInstanceAs (Decidable (s.msg.head.datalen = 0))
  | .setMsgtype _ | .addOption .. | .removeOption .. | .resetOption =>
    inferInstanceAs (Decidable True)

/-- A call after which the block is in step with the options: what is reset was empty, and an
option that is removed was not there, or leaves more options than the head can tell. -/
def KeepsOpts (s : Outgoing) : OutgoingCall → Prop
  | .removeOption o i => s.msg.getOption i = none ∨ ¬ (s.call (.removeOption o i)).InLimit
  | .resetOption => s.msg.head.optslen = 0
  | .setMsgtype _ | .setData _ | .addOption .. | .resetBody => True

instance (s : Outgoing) : (a : OutgoingCall) → Decidable (s.KeepsOpts a)
  | .removeOption o i =>
    inferInstanceAs (Decidable (s.msg.getOption i = none ∨ ¬ (s.call (.removeOption o i)).InLimit))
  | .resetOption => inferInstanceAs (Decidable (s.msg.head.optslen = 0))
  | .setMsgtype _ | .setData _ | .addOption .. | .resetBody => inferInstanceAs (Decidable True)

theorem call_removeOption (s : Outgoing) (o : IterOrder OptionRequest) (i : Int64) :
    s.call (.removeOption o i) =
      match s.msg.getOption i with
      | some _ => ⟨{ s.msg with opts := s.msg.opts.erase i }, o⟩
      | none => s := by
  rw [call, QtpMsg.removeOption_eq]
  cases s.msg.getOption i <;> rfl

theorem fits_call (hfit : s.msg.BuffersFit) (a : OutgoingCall) :
    (s.call a).msg.BuffersFit := by
  cases a with
  | setMsgtype t => exact ⟨hfit.data, hfit.opt⟩
  | setData d => exact hfit.setData d
  | addOption o r => exact hfit.apply (.addOption o r)
  | removeOption o i =>
    rw [call_removeOption]
    split
    · exact ⟨hfit.data, hfit.opt⟩
    · exact hfit
  | resetBody => exact hfit.apply .resetBody
  | resetOption => exact hfit.apply .resetOption

theorem fits_step (hfit : s.msg.BuffersFit) {a : OutgoingCall} (ha : s.step a = some s') :
    s'.msg.BuffersFit := by
  cases ha
  exact fits_call hfit a

theorem DataInStep.call_iff (h : s.DataInStep) (a : OutgoingCall) :
    (s.call a).DataInStep ↔ s.KeepsData a := by
  have hzero : s.msg.head.datalen.toNat = 0 ↔ s.msg.head.datalen = 0 := by
    rw [← UInt32.toNat_inj]
    rfl
  have hlt := s.msg.head.datalen.toNat_lt
  cases a with
  | setMsgtype t => exact iff_of_true h trivial
  | setData d =>
    cases d with
    | none => exact hzero
    | some d =>
      -- setData writes the length into 32 bits of the head
      have hword := (UInt32.ofNat d.length).toNat_lt
      show (UInt32.ofNat d.length).toNat = d.length ↔ d.length < 2 ^ 32
      constructor
      · omega
      · exact UInt32.toNat_ofNat_of_lt'
  | addOption o r =>
    refine iff_of_true ?_ trivial
    show (UInt32.ofNat s.msg.dataLen).toNat = s.msg.dataLen
    -- encode writes the length of the data again, and 32 bits hold it
    rw [DataInStep] at h
    exact UInt32.toNat_ofNat_of_lt' (show s.msg.dataLen < 2 ^ 32 by omega)
  | removeOption o i =>
    refine iff_of_true ?_ trivial
    rw [call_removeOption]
    split
    · exact h
    · exact h
  | resetBody => exact hzero
  | resetOption => exact iff_of_true h trivial

/-- A call that keeps the options in step, as far as the head can tell them. -/
theorem optsInStep_call (hfit : s.msg.BuffersFit) (h : s.InLimit → s.OptsInStep)
    {a : OutgoingCall} (hkeeps : s.KeepsOpts a) (hlimit : (s.call a).InLimit) :
    (s.call a).OptsInStep := by
  cases a with
  | setMsgtype t =>
    have hs := h hlimit
    exact ⟨hs.optslen, hs.fits, hs.block⟩
  | setData d =>
    cases d with
    | none =>
      have hs := h hlimit
      exact ⟨hs.optslen, hs.fits, hs.block⟩
    | some d =>
      have hs := h hlimit
      exact ⟨hs.optslen, hs.fits, hs.block⟩
  | addOption o r =>
    -- the call encodes all options anew, so the block is right whatever was there
    have hset : ({ s.msg with opts := s.msg.opts.set r } : QtpMsg).BuffersFit :=
      ⟨hfit.data, hfit.opt⟩
    obtain ⟨hfits, hblock⟩ := QtpMsg.cells_encode_optBuf o hset
    refine ⟨?_, hfits, hblock⟩
    show (UInt16.ofNat (QtpMsg.encode o { s.msg with opts := s.msg.opts.set r }).optLen).toNat = _
    rw [QtpMsg.encode_optLen]
    exact UInt16.toNat_ofNat_of_lt' (Nat.lt_succ_of_le hlimit)
  | removeOption o i =>
    rcases hkeeps with hnone | hover
    · rw [call_removeOption, hnone] at hlimit ⊢
      exact h hlimit
    · exact absurd hlimit hover
  | resetBody =>
    have hs := h hlimit
    exact ⟨hs.optslen, hs.fits, hs.block⟩
  | resetOption =>
    -- the options are dropped and optslen is not: right only if it was zero
    have hzero : s.msg.head.optslen = 0 := hkeeps
    refine ⟨?_, Nat.zero_le _, ?_⟩
    · show s.msg.head.optslen.toNat = 0
      rw [hzero]
      rfl
    · have horder : s.order.order [] = [] := (s.order.perm []).eq_nil
      show ([] : List UInt8) = SampleTools.block (s.order.order [])
      rw [horder, block_nil]

/-- Where the options are in step before and after a call, the call was one that keeps them. -/
theorem OptsInStep.keeps (h : s.OptsInStep) {a : OutgoingCall} (h' : (s.call a).OptsInStep) :
    s.KeepsOpts a := by
  cases a with
  | setMsgtype | setData | addOption | resetBody => trivial
  | removeOption o i =>
    left
    by_contra hne
    obtain ⟨r, hr⟩ := Option.ne_none_iff_exists'.mp hne
    -- the block has lost a record, and the head still tells the length with it
    have hlen := h'.optslen
    rw [call_removeOption, hr] at hlen
    have herase := OptionMap.encodedLen_erase (show s.msg.opts.get i = some r from hr)
    have hpos := r.recordLen_pos
    have hold := h.optslen
    simp only at hlen
    omega
  | resetOption =>
    have hlen : s.msg.head.optslen.toNat = 0 := h'.optslen
    exact UInt16.toNat_inj.mp hlen

/-- A call after which the head and the block are in step. -/
def KeepsInStep (s : Outgoing) (a : OutgoingCall) : Prop := s.KeepsData a ∧ s.KeepsOpts a

instance (s : Outgoing) (a : OutgoingCall) : Decidable (s.KeepsInStep a) :=
  inferInstanceAs (Decidable (_ ∧ _))

/-- The lengths fit the blocks, and the two ways of sending agree as far as the head can tell
the options. -/
structure Ready (s : Outgoing) : Prop where
  fits : s.msg.BuffersFit
  data : s.DataInStep
  opts : s.InLimit → s.OptsInStep

theorem Ready.new : Ready {} where
  fits := .empty
  data := rfl
  opts _ := ⟨rfl, Nat.le_refl _, rfl⟩

theorem Ready.agrees (h : s.Ready) (hlimit : s.InLimit) : s.Agrees :=
  (agrees_iff_inStep h.fits hlimit).mpr ⟨h.opts hlimit, h.data⟩

theorem Ready.call (h : s.Ready) {a : OutgoingCall} (hkeeps : s.KeepsInStep a) :
    (s.call a).Ready where
  fits := fits_call h.fits a
  data := (h.data.call_iff a).mpr hkeeps.1
  opts := optsInStep_call h.fits h.opts hkeeps.2

theorem Ready.step (h : s.Ready) {a : OutgoingCall} (hkeeps : s.KeepsInStep a)
    (ha : s.step a = some s') : s'.Ready := by
  cases ha
  exact h.call hkeeps

/-- Where the two ways agree before and after a call, the call was one that keeps them. -/
theorem keepsInStep_of_agrees (hfit : s.msg.BuffersFit) (hlimit : s.InLimit) (h : s.Agrees)
    {a : OutgoingCall} (hlimit' : (s.call a).InLimit) (h' : (s.call a).Agrees) :
    s.KeepsInStep a := by
  obtain ⟨hopts, hdata⟩ := (agrees_iff_inStep hfit hlimit).mp h
  obtain ⟨hopts', hdata'⟩ := (agrees_iff_inStep (fits_call hfit a) hlimit').mp h'
  exact ⟨(hdata.call_iff a).mp hdata', hopts.keeps hopts'⟩

/-- One call, where the two ways agree and the options fit the head. -/
theorem agrees_step_iff (hfit : s.msg.BuffersFit) (h : s.InLimit ∧ s.Agrees) {a : OutgoingCall}
    (ha : s.step a = some s') :
    s'.InLimit ∧ s'.Agrees ↔ s.KeepsInStep a ∧ (s.call a).InLimit := by
  obtain ⟨hlimit, hs⟩ := h
  cases ha
  constructor
  · rintro ⟨hlimit', hs'⟩
    exact ⟨keepsInStep_of_agrees hfit hlimit hs hlimit' hs', hlimit'⟩
  · rintro ⟨hk, hlimit'⟩
    obtain ⟨hopts, hdata⟩ := (agrees_iff_inStep hfit hlimit).mp hs
    have hready : s.Ready := ⟨hfit, hdata, fun _ => hopts⟩
    exact ⟨hlimit', (hready.call hk).agrees hlimit'⟩

/-- **The two ways to send a message.** If every call of a run keeps the head and the block in
step, the two agree in every state whose options fit the head. In a run whose options always
fit the head they agree in every state only if every call does. -/
theorem send_paths_iff {trace : List (Outgoing × OutgoingCall)} (hrun : Run step {} trace s) :
    ((∀ e ∈ trace, e.1.KeepsInStep e.2) →
      (∀ e ∈ trace, e.1.InLimit → e.1.Agrees) ∧ (s.InLimit → s.Agrees)) ∧
    ((∀ e ∈ trace, e.1.InLimit) → s.InLimit →
      (((∀ e ∈ trace, e.1.Agrees) ∧ s.Agrees) ↔ ∀ e ∈ trace, e.1.KeepsInStep e.2)) := by
  have hagree : (∀ e ∈ trace, e.1.KeepsInStep e.2) →
      (∀ e ∈ trace, e.1.InLimit → e.1.Agrees) ∧ (s.InLimit → s.Agrees) := by
    intro hkeeps
    obtain ⟨htrace, hs⟩ := hrun.forall_of_steps Ready.new
      (fun h hk ha => h.step hk ha) hkeeps
    exact ⟨fun e he => (htrace e he).agrees, hs.agrees⟩
  refine ⟨hagree, fun hlimits hlimit => ⟨fun hall => ?_, fun hkeeps => ?_⟩⟩
  · have hnew : InLimit {} ∧ Agrees {} := ⟨Nat.zero_le _, Ready.new.agrees (Nat.zero_le _)⟩
    have hiff := hrun.forall_good_iff (I := fun s : Outgoing => s.msg.BuffersFit)
      (P := fun s => s.InLimit ∧ s.Agrees) (C := fun s a => s.KeepsInStep a ∧ (s.call a).InLimit)
      Ready.new.fits (fun hfit ha => fits_step hfit ha) hnew
      fun hfit hs ha => agrees_step_iff hfit hs ha
    exact fun e he => (hiff.mp ⟨fun e he => ⟨hlimits e he, hall.1 e he⟩, hlimit, hall.2⟩ e he).1
  · obtain ⟨htrace, hs⟩ := hagree hkeeps
    exact ⟨fun e he => htrace e he (hlimits e he), hs hlimit⟩

/-- A message with data and an option, from which an option is removed that it never had. -/
theorem send_paths_subscribe :
    ∃ (trace : List (Outgoing × OutgoingCall)) (s : Outgoing), Run step {} trace s ∧
      trace.map Prod.snd = [.setMsgtype 1003, .setData (some [1, 2, 3]),
        .addOption .reversed (.ofInt64 OptionId.sessionId.toU16 5),
        .removeOption .stored OptionId.reqId.toI64] ∧
      s.msg.opts.encodedLen = 12 ∧ s.Agrees := by
  have hrun : Run step {} _ _ :=
    Run.nil.snoc (a := .setMsgtype 1003) rfl |>.snoc (a := .setData (some [1, 2, 3])) rfl
    |>.snoc (a := .addOption .reversed (.ofInt64 OptionId.sessionId.toU16 5)) rfl
    |>.snoc (a := .removeOption .stored OptionId.reqId.toI64) rfl
  exact ⟨_, _, hrun, rfl, by decide, ((send_paths_iff hrun).1 (by decide)).2 (by decide)⟩

/-- An option that was added and removed is sent by `SendMsg` and not by `send_data`; and after
`reset_body` it reads data that is no longer there. -/
theorem send_paths_differ :
    let s := ((({} : Outgoing).call
      (.addOption .stored (.ofInt64 OptionId.sessionId.toU16 5))).call
      (.removeOption .stored OptionId.sessionId.toI64))
    let s' := (({} : Outgoing).call (.setData (some [1]))).call .resetBody
    s.InLimit ∧ (∀ p p', (s.msg.sendMsg p p').length = 24) ∧
      (s.msg.sendData s.order).2.bytes.length = 12 ∧
      s'.InLimit ∧ ¬ s'.msg.SendReadsInside := by
  refine ⟨by decide, fun p p' => ?_, by decide, by decide, by decide⟩
  rw [sendMsg_length]
  decide

end Outgoing

end SampleTools
