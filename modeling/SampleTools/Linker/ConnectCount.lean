import SampleTools.Iomn.Pushes
import SampleTools.Linker.ServerEnd
import SampleTools.Linker.XTcpServer

/-!
# The number of connections of the gateway

`XTcpServer` counts its connections and pushes the number as a metric: one more when a connection
is accepted, one less when an event closes it. A connection that `OnRead` closes for a message of
version 1 is not counted off, so that the number printed is that of the open connections and of
all those that were closed so.

The collector is started by the program that uses the server, which the `main` beside the server
does not do: then nothing is printed. No other code pushes `connect_count`.

## Main definitions

* `Gateway`, `Gateway.step`: the server with the metrics of its program, and one step of a thread
* `Gateway.rejected`: how many connections `OnRead` has closed

## Main results

* `Gateway.counted_of_run`: the number, and what was pushed of it
* `Gateway.run_prints`: the line that is printed
-/

namespace SampleTools

/-- The key of the number of connections. -/
def connectCountKey : String := "connect_count"

/-- `XTcpServer` with its open connections and `_connect_count`, in a program that collects its
metrics. The thread of the event loop is `none`, the other threads are in `ι`. -/
structure Gateway (ι : Type) where
  conns : AList fun _ : Bev => XTcpServer.Conn := ∅
  connectCount : ℤ := 0
  metrics : Pushing (Option ι)

namespace Gateway

variable {ι : Type}

/-- `METRIC_GUAGE("connect_count", n)`, where `n` is the new number. -/
def countTo (n : ℤ) (s : Gateway ι) : Gateway ι :=
  { s with
    connectCount := n
    metrics := s.metrics.push none (Metric.pushGuage connectCountKey n) }

/-- `OnAccept`. -/
def onAccept (bev : Bev) (s : Gateway ι) : Gateway ι :=
  { s with conns := s.conns.insert bev {} }.countTo (s.connectCount + 1)

/-- `OnEvent`. -/
def onEvent (bev : Bev) (events : UInt16) (s : Gateway ι) : Gateway ι :=
  if events &&& ServerEnd.bevEventClosing ≠ 0 then
    { s with conns := s.conns.erase bev }.countTo (s.connectCount - 1)
  else s

/-- `OnRead`, on a connection that is open; the number stays if it closes it. -/
def onRead (bev : Bev) (c : XTcpServer.Conn) (a : XTcpServer.Arrival) (s : Gateway ι) :
    Gateway ι :=
  if (c.arrive a).closed then { s with conns := s.conns.erase bev }
  else { s with conns := s.conns.insert bev (c.arrive a) }

/-- A connection comes, has an event or has bytes to read; or a step of the other threads and of
the collector. -/
inductive Label (ι : Type)
  | onAccept (bev : Bev)
  | onEvent (bev : Bev) (events : UInt16)
  | onRead (bev : Bev) (a : XTcpServer.Arrival)
  | metrics (a : Pushing.Label (Option ι))

/-- What the other threads and the collector may do: no other thread pushes this number. -/
def Foreign : Pushing.Label (Option ι) → Prop
  | .push i d => i ≠ none ∧ ¬ (d.type = .gugae ∧ d.key = connectCountKey)
  | .collect .. | .stop => True

instance : (a : Pushing.Label (Option ι)) → Decidable (Foreign a)
  | .push none _ => isFalse fun h => h.1 rfl
  | .push (some _) d =>
    decidable_of_iff (¬ (d.type = .gugae ∧ d.key = connectCountKey))
      ⟨fun h => ⟨Option.some_ne_none _, h⟩, And.right⟩
  | .collect .. | .stop => .isTrue trivial

/-- The server and the collector are started. -/
def start (appTag : String) (now : ℤ) : Gateway ι where
  metrics := .start appTag now

section Keys

variable {conns : AList fun _ : Bev => XTcpServer.Conn} {bev : Bev}

theorem length_keys_insert (h : bev ∉ conns) (c : XTcpServer.Conn) :
    (conns.insert bev c).keys.length = conns.keys.length + 1 := by
  rw [AList.keys_insert, List.erase_of_not_mem h, List.length_cons]

theorem length_keys_erase (h : bev ∈ conns) :
    (conns.erase bev).keys.length + 1 = conns.keys.length := by
  have hpos := List.length_pos_of_mem h
  rw [AList.keys_erase, List.length_erase_of_mem h]
  omega

theorem length_keys_set (h : bev ∈ conns) (c : XTcpServer.Conn) :
    (conns.insert bev c).keys.length = conns.keys.length := by
  rw [AList.keys_insert, List.length_cons, ← AList.keys_erase]
  exact length_keys_erase h

end Keys

variable [DecidableEq ι]

/-- One step. -/
def step (s : Gateway ι) : Label ι → Option (Gateway ι)
  | .onAccept bev => if bev ∈ s.conns then none else some (s.onAccept bev)
  | .onEvent bev events => if bev ∈ s.conns then some (s.onEvent bev events) else none
  | .onRead bev a => (s.conns.lookup bev).map fun c => s.onRead bev c a
  | .metrics a =>
    if Foreign a then (s.metrics.step a).map fun metrics => { s with metrics := metrics } else none

omit [DecidableEq ι] in
/-- `OnRead` closes a connection. -/
def rejects (s : Gateway ι) : Label ι → Bool
  | .onRead bev a => (s.conns.lookup bev).any fun c => (c.arrive a).closed
  | .onAccept _ | .onEvent .. | .metrics _ => false

/-- How many connections `OnRead` has closed. -/
def rejected (trace : List (Gateway ι × Label ι)) : ℕ := trace.countP fun e => e.1.rejects e.2

/-- The number is pushed by the event loop only, and as long as metrics are pushed, the last one
that was pushed is the number there is. -/
structure Counted (appTag : String) (now : ℤ) (s : Gateway ι) (trace : List (Gateway ι × Label ι))
    (pushes : List (Pushing (Option ι) × Pushing.Label (Option ι))) : Prop where
  run : Run Pushing.step (Pushing.start appTag now) pushes s.metrics
  count : s.connectCount = s.conns.keys.length + rejected trace
  own : ∀ item ∈ Pushing.accepted pushes,
    item.2.type = .gugae ∧ item.2.key = connectCountKey ↔ item.1 = none
  last : s.metrics.isRunning = true → (∃ e ∈ trace, ∃ bev, e.2 = .onAccept bev) →
    (ofProducer none (Pushing.accepted pushes)).getLast? =
      some (Metric.pushGuage connectCountKey s.connectCount)

section Run

variable {s s' : Gateway ι} {a : Label ι} {trace : List (Gateway ι × Label ι)}
  {pushes : List (Pushing (Option ι) × Pushing.Label (Option ι))} {appTag : String} {now : ℤ}

omit [DecidableEq ι] in
theorem rejected_concat : rejected (trace ++ [(s, a)]) =
    rejected trace + if s.rejects a = true then 1 else 0 := by
  rw [rejected, List.countP_append, List.countP_singleton, rejected]

theorem Counted.start : Counted appTag now (start appTag now : Gateway ι) [] [] where
  run := .nil
  count := rfl
  own _ h := nomatch h
  last _ h := by
    obtain ⟨e, he, -⟩ := h
    cases he

/-- The number changes, and is pushed. -/
theorem Counted.countTo (h : Counted appTag now s trace pushes)
    {conns : AList fun _ : Bev => XTcpServer.Conn} {n : ℤ}
    (hn : n = conns.keys.length + rejected (trace ++ [(s, a)])) :
    ∃ pushes', Counted appTag now ({ s with conns := conns }.countTo n)
      (trace ++ [(s, a)]) pushes' := by
  have hpush : s.metrics.step (.push none (Metric.pushGuage connectCountKey n)) =
      some (s.metrics.push none (Metric.pushGuage connectCountKey n)) := rfl
  refine ⟨_, h.run.snoc hpush, hn, ?_, ?_⟩
  · rw [Pushing.accepted, List.flatMap_append, List.flatMap_singleton]
    refine List.forall_mem_append.mpr ⟨h.own, ?_⟩
    intro item hitem
    rw [Pushing.accepts] at hitem
    split at hitem
    · obtain rfl := List.mem_singleton.mp hitem
      exact iff_of_true ⟨rfl, rfl⟩ rfl
    · cases hitem
  · -- the push comes last, if pushes are taken at all
    intro hrunning _
    have hrunning' : s.metrics.isRunning = true :=
      (Pushing.isRunning_push none _ s.metrics).symm.trans hrunning
    rw [Pushing.accepted, List.flatMap_append, List.flatMap_singleton, Pushing.accepts,
      if_pos hrunning', ofProducer_append, ofProducer_cons, if_pos rfl, ofProducer_nil,
      List.getLast?_concat]
    rfl

/-- What the other threads and the collector do. -/
theorem Counted.metrics (h : Counted appTag now s trace pushes)
    {l : Pushing.Label (Option ι)} {metrics : Pushing (Option ι)} (hl : Foreign l)
    (hstep : s.metrics.step l = some metrics) :
    ∃ pushes', Counted appTag now { s with metrics := metrics }
      (trace ++ [(s, .metrics l)]) pushes' := by
  have hown : ∀ item ∈ s.metrics.accepts l,
      item.2.type = .gugae ∧ item.2.key = connectCountKey ↔ item.1 = none := by
    intro item hitem
    cases l with
    | push i d =>
      rw [Pushing.accepts] at hitem
      split at hitem
      · obtain rfl := List.mem_singleton.mp hitem
        exact iff_of_false hl.2 hl.1
      · cases hitem
    | collect now next => cases hitem
    | stop => cases hitem
  have hnone : ofProducer none (s.metrics.accepts l) = [] := by
    apply List.eq_nil_iff_forall_not_mem.mpr
    intro d hd
    have hitem := mem_ofProducer.mp hd
    cases l with
    | push i d' =>
      rw [Pushing.accepts] at hitem
      split at hitem
      · obtain ⟨rfl, -⟩ := Prod.mk.inj (List.mem_singleton.mp hitem)
        exact hl.1 rfl
      · cases hitem
    | collect now next => cases hitem
    | stop => cases hitem
  refine ⟨_, h.run.snoc hstep, ?_, ?_, ?_⟩
  · rw [rejected_concat, h.count]
    rfl
  · rw [Pushing.accepted, List.flatMap_append, List.flatMap_singleton]
    exact List.forall_mem_append.mpr ⟨h.own, hown⟩
  · rintro hmetrics ⟨e, he, bev, hbev⟩
    rw [Pushing.accepted, List.flatMap_append, List.flatMap_singleton, ofProducer_append, hnone,
      List.append_nil]
    rcases List.mem_append.mp he with he | he
    · exact h.last (Pushing.isRunning_of_step hstep hmetrics) ⟨e, he, bev, hbev⟩
    · rw [List.mem_singleton.mp he] at hbev
      cases hbev

/-- Nothing is pushed, and the number stays. -/
theorem Counted.keeps (h : Counted appTag now s trace pushes)
    {conns : AList fun _ : Bev => XTcpServer.Conn} (ha : ∀ bev, a ≠ .onAccept bev)
    (hconns : conns.keys.length + rejected (trace ++ [(s, a)]) =
      s.conns.keys.length + rejected trace) :
    Counted appTag now { s with conns := conns } (trace ++ [(s, a)]) pushes := by
  refine ⟨h.run, ?_, h.own, ?_⟩
  · refine h.count.trans ?_
    exact_mod_cast hconns.symm
  · rintro hrunning ⟨e, he, bev, hbev⟩
    rcases List.mem_append.mp he with he | he
    · exact h.last hrunning ⟨e, he, bev, hbev⟩
    · rw [List.mem_singleton.mp he] at hbev
      exact absurd hbev (ha bev)

theorem Counted.step (h : Counted appTag now s trace pushes) (ha : s.step a = some s') :
    ∃ pushes', Counted appTag now s' (trace ++ [(s, a)]) pushes' := by
  cases a with
  | onAccept bev =>
    simp only [Gateway.step] at ha
    split at ha
    · cases ha
    next hbev =>
      cases ha
      apply h.countTo
      rw [rejected_concat, length_keys_insert hbev, h.count]
      simp only [rejects, Bool.false_eq_true, if_false]
      omega
  | onEvent bev events =>
    simp only [Gateway.step] at ha
    split at ha
    next hbev =>
      cases ha
      -- one connection less, or nothing happens
      have hlength := length_keys_erase hbev
      rw [onEvent]
      split
      · apply h.countTo
        rw [rejected_concat, h.count]
        simp only [rejects, Bool.false_eq_true, if_false]
        omega
      · exact ⟨pushes, h.keeps nofun (by rw [rejected_concat]; rfl)⟩
    · cases ha
  | onRead bev a =>
    obtain ⟨c, hc, rfl⟩ := Option.map_eq_some_iff.mp ha
    have hbev : bev ∈ s.conns := AList.lookup_isSome.mp (hc ▸ rfl)
    have hrejects : s.rejects (.onRead bev a) = (c.arrive a).closed := by
      rw [rejects, hc]
      rfl
    rw [onRead]
    split
    next hclosed =>
      -- one connection less, and one more that was rejected
      refine ⟨pushes, h.keeps nofun ?_⟩
      have hlength := length_keys_erase hbev
      rw [rejected_concat, hrejects, if_pos hclosed]
      omega
    next hclosed =>
      refine ⟨pushes, h.keeps nofun ?_⟩
      rw [rejected_concat, hrejects, if_neg hclosed, length_keys_set hbev]
      rfl
  | metrics l =>
    simp only [Gateway.step] at ha
    split at ha
    next hl =>
      obtain ⟨metrics, hstep, rfl⟩ := Option.map_eq_some_iff.mp ha
      exact h.metrics hl hstep
    · cases ha

/-- The number, and what was pushed of it, in every state of a run. -/
theorem counted_of_run (hrun : Run step (start appTag now) trace s) :
    ∃ pushes, Counted appTag now s trace pushes := by
  induction hrun with
  | nil => exact ⟨[], .start⟩
  | snoc _ ha ih =>
    obtain ⟨pushes, h⟩ := ih
    exact h.step ha

theorem ofInt_natCast (n : ℕ) : UInt64.ofInt (n : ℤ) = UInt64.ofNat n := by
  have hmod : ((n : ℤ) % 2 ^ 64).toNat = n % 2 ^ 64 := by omega
  rw [UInt64.ofInt, hmod]
  exact UInt64.ofNat_mod_size

/-- What was pushed under the key is what the event loop pushed. -/
theorem under_eq_ofProducer {l : List (Option ι × MetricData)}
    (h : ∀ item ∈ l, item.2.type = .gugae ∧ item.2.key = connectCountKey ↔ item.1 = none) :
    Metric.under .gugae connectCountKey (l.map Prod.snd) = ofProducer none l := by
  induction l with
  | nil => rfl
  | cons item l ih =>
    obtain ⟨hitem, hl⟩ := List.forall_mem_cons.mp h
    obtain ⟨i, d⟩ := item
    rw [ofProducer_cons, ← ih hl, List.map_cons, Metric.under, List.filter_cons]
    simp only [decide_eq_true_eq, hitem]
    rfl

/-- **The number of connections.** While metrics are collected, a connection was accepted and
what the event loop pushed has been taken out, the line printed has the number of the open
connections and of those that `OnRead` has closed. -/
theorem run_prints {order : Metric.OutputOrder} {lines : List String}
    (hrun : Run step (start appTag now) trace s) (hrunning : s.metrics.isRunning = true)
    (haccepts : ∃ e ∈ trace, ∃ bev, e.2 = .onAccept bev) (hq : ofProducer none s.metrics.q = [])
    (hlines : s.metrics.metric.genAndWriteOutput order = some lines) :
    connectCountKey ++ "_guagae:" ++
      toString (UInt64.ofNat (s.conns.keys.length + rejected trace)) ++ "\n" ∈ lines := by
  obtain ⟨pushes, h⟩ := counted_of_run hrun
  -- what the event loop pushed was taken out, all of it
  have hqueue := Pushing.ofProducer_taken h.run none
  rw [ofProducer_append, hq, List.append_nil] at hqueue
  have hown : ∀ item ∈ Pushing.taken pushes,
      item.2.type = .gugae ∧ item.2.key = connectCountKey ↔ item.1 = none := by
    rintro ⟨i, d⟩ hitem
    have hd : d ∈ ofProducer i (Pushing.accepted pushes) := by
      rw [← Pushing.ofProducer_taken h.run i]
      exact mem_ofProducer.mpr (List.mem_append_left _ hitem)
    exact h.own (i, d) (mem_ofProducer.mp hd)
  have hshown : Metric.shown Metric.lastValue .gugae connectCountKey
      ((Pushing.taken pushes).map Prod.snd) =
        some (UInt64.ofNat (s.conns.keys.length + rejected trace)) := by
    rw [Metric.shown, under_eq_ofProducer hown, hqueue, h.last hrunning haccepts, Option.map_some,
      Metric.lastValue, Metric.pushGuage, h.count, ← ofInt_natCast, Nat.cast_add]
  obtain ⟨-, hguage, -⟩ := (Pushing.shows_taken h.run).mem_output hlines connectCountKey
  exact hguage _ hshown

end Run

/-- A message of version 1, without options and data. -/
def versionOne : List UInt8 := MsgHead.bytes { version := 1 }

/-- The bytes of `versionOne` on a new connection. -/
def rejectedArrival : XTcpServer.Arrival := ⟨fun _ => 0, versionOne⟩

theorem closed_rejectedArrival :
    (({} : XTcpServer.Conn).arrive rejectedArrival).closed = true := by
  have htake : takeFrame ([] ++ versionOne) = some (⟨{ version := 1 }, [], []⟩, []) := by
    decide +kernel
  rw [XTcpServer.Conn.arrive]
  simp only [Bool.false_eq_true, if_false, rejectedArrival, XTcpServer.onRead_of_some htake]
  rfl

theorem step_rejectedArrival {s : Gateway ι} {bev : Bev} (h : s.conns.lookup bev = some {}) :
    s.step (.onRead bev rejectedArrival) = some { s with conns := s.conns.erase bev } := by
  rw [step, h, Option.map_some, onRead, if_pos closed_rejectedArrival]

omit [DecidableEq ι] in
theorem rejects_rejectedArrival {s : Gateway ι} {bev : Bev} (h : s.conns.lookup bev = some {}) :
    s.rejects (.onRead bev rejectedArrival) = true := by
  rw [rejects, h]
  exact closed_rejectedArrival

/-- Two connections, one of which is closed for its version: the line still has two. -/
theorem run_prints_rejected : ∃ (trace : List (Gateway ℕ × Label ℕ)) (s : Gateway ℕ)
    (order : Metric.OutputOrder) (lines : List String),
    Run step (start "gateway" 0) trace s ∧
      trace.map Prod.snd = [.onAccept 1, .onAccept 2, .metrics (.collect 10 (some none)),
        .metrics (.collect 20 (some none)), .onRead 1 rejectedArrival] ∧
      s.conns.keys = [2] ∧ s.metrics.metric.genAndWriteOutput order = some lines ∧
      "connect_count_guagae:2\n" ∈ lines := by
  have hrun : Run (step (ι := ℕ)) (start "gateway" 0) _ _ :=
    Run.nil.snoc (a := .onAccept 1) rfl |>.snoc (a := .onAccept 2) rfl
    |>.snoc (a := .metrics (.collect 10 (some none))) rfl
    |>.snoc (a := .metrics (.collect 20 (some none))) rfl
    |>.snoc (a := .onRead 1 rejectedArrival) (step_rejectedArrival rfl)
  have hlines : ∃ lines, Metric.genAndWriteOutput ⟨.stored, .stored, .stored, .stored⟩
      (Metric.collect 20 (some (Metric.pushGuage connectCountKey 2))
        (Metric.collect 10 (some (Metric.pushGuage connectCountKey 1)) (.start "gateway" 0))) =
      some lines := ⟨_, rfl⟩
  obtain ⟨lines, hlines⟩ := hlines
  have hline := run_prints hrun rfl ⟨_, List.mem_cons_self, 1, rfl⟩ rfl hlines
  rw [rejected_concat, if_pos (rejects_rejectedArrival rfl)] at hline
  exact ⟨_, _, _, _, hrun, rfl, rfl, hlines, hline⟩

end Gateway

end SampleTools
