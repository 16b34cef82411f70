import Mathlib.Data.Int.Notation
import Mathlib.Data.List.Range
import SampleTools.Library.Run

/-!
# The reconnecting client `EventClient`

`Connect` closes the old connection and tries addresses one after another: the hosts etcd
names, then the default address. An attempt resolves the address, makes an SSL object if the
client has none, makes a bufferevent and starts to connect; each of these may fail at once.
How an attempt that was started ends is told by an event. A disconnect arms a timer, and
the timer connects again.

What libevent, OpenSSL and etcd answer is part of the calls. A bufferevent made from an SSL
object owns it: freeing the bufferevent releases the object, and so does making one that
fails.

## Main definitions

* `Link`: the connection and the SSL object, with what happened to SSL objects so far
* `Link.connectTo`: one attempt
* `EventClient`, `EventClient.connect`, `EventClient.onEvent`: the client
* `ClientCall`, `EventClient.step`: what can happen to a client
* `Attempt.ending`, `Link.tryAll`: how an attempt ends, and attempts in a row

## Main results

* `Link.connectTo_spec`: what an attempt does to the connection
* `EventClient.connect_link`: `Connect` is the attempts at the addresses it tries
-/

namespace SampleTools

/-! ## Addresses -/

/-- `ConnectionParams`, the members a client reads. -/
structure ConnectionParams where
  address : String := ""
  port : String := ""
  hostkey : String := ""
  etcdEndpoints : String := ""
  isSsl : Bool := false
  certVerify : Bool := false
  deriving DecidableEq, Repr

/-- An address and a port. -/
abbrev Host := String × String

/-- The values of alternating keys and values. -/
def etcdValues : List String → List String
  | _ :: val :: rest => val :: etcdValues rest
  | _ => []

/-- The host in a value: what follows the last slash, parted at its first colon. -/
def hostOf (val : String) : Option Host :=
  let tmp := (val.toList.reverse.takeWhile (· ≠ '/')).reverse
  if ':' ∈ tmp then
    some (String.ofList (tmp.takeWhile (· ≠ ':')),
      String.ofList ((tmp.dropWhile (· ≠ ':')).drop 1))
  else none

/-- `get_master_host_from_etcd`, given the lines `etcdctl` prints, `none` if it cannot be
run. -/
def getMasterHostFromEtcd (output : Option (List String)) : Option (List Host) :=
  match output with
  | none => none
  | some result =>
    if result.length < 2 then none else some ((etcdValues result).filterMap hostOf)

/-- `isspace`. -/
def isSpace (c : Char) : Bool := c = ' ' ∨ '\t'.toNat ≤ c.toNat ∧ c.toNat ≤ '\r'.toNat

/-- `trim`. -/
def trim (s : List Char) : List Char :=
  (s.reverse.dropWhile isSpace).reverse.dropWhile isSpace

/-- The loop of `get_full_endpoints_etcd`; a line without six columns ends it. -/
def joinEndpoints : List String → String → Option String
  | [], fullEndpoints => some fullEndpoints
  | line :: rest, fullEndpoints =>
    match line.toList.splitOn ',' with
    | [_, _, _, _, url, _] =>
      let fullEndpoints := if fullEndpoints ≠ "" then fullEndpoints ++ "," else fullEndpoints
      joinEndpoints rest (fullEndpoints ++ String.ofList (trim url))
    | _ => none

/-- `get_full_endpoints_etcd`, given the lines `etcdctl` prints. -/
def getFullEndpointsEtcd (output : Option (List String)) : Option String :=
  match output with
  | none => none
  | some result => (joinEndpoints result "").filter fun fullEndpoints => fullEndpoints ≠ ""

/-! ## The connection -/

/-- A bufferevent: the SSL object it owns, and whether its event callback has reported a
failure. -/
structure Bufferevent where
  ssl : Option ℕ
  failed : Bool := false
  deriving DecidableEq, Repr

/-- Which calls of OpenSSL in `CreateSSL` succeed. -/
structure SslCalls where
  ctxNew : Bool := true
  loadVerifyLocations : Bool := true
  useCertificateFile : Bool := true
  usePrivateKeyFile : Bool := true
  checkPrivateKey : Bool := true
  sslNew : Bool := true

/-- What one attempt meets: what `evutil_getaddrinfo` returns and whether it gives a result,
the calls of `CreateSSL`, whether there is a bufferevent, and what
`bufferevent_socket_connect` returns. -/
structure Attempt where
  getaddrinfo : ℤ := 0
  hasResult : Bool := true
  sslCalls : SslCalls := {}
  created : Bool := true
  socketConnect : ℤ := 0

/-- `client_` and `ssl_`. SSL objects are numbered: `made` of them were made, and some
released. `handed` are those a bufferevent was to be made from, each with whether it was
alive. -/
structure Link where
  client : Option Bufferevent := none
  ssl : Option ℕ := none
  made : ℕ := 0
  released : List ℕ := []
  handed : List (ℕ × Bool) := []

/-- `SSL_free`. -/
def Link.release (ssl : Option ℕ) (l : Link) : Link :=
  { l with released := l.released ++ ssl.toList }

/-- `bufferevent_free`, and `client_` is null. -/
def Link.free (bev : Bufferevent) (l : Link) : Link :=
  { l.release bev.ssl with client := none }

/-- `Close`, what it does to the connection. -/
def Link.close (l : Link) : Link :=
  match l.client with
  | some bev => l.free bev
  | none => l

/-- `CreateSSL` gets as far as an SSL object. -/
def SslCalls.succeed (certVerify : Bool) (calls : SslCalls) : Bool :=
  calls.ctxNew && (!certVerify || calls.loadVerifyLocations && calls.useCertificateFile &&
    calls.usePrivateKeyFile && calls.checkPrivateKey) && calls.sslNew

/-- `CreateSSL`. -/
def Link.createSSL (certVerify : Bool) (calls : SslCalls) (l : Link) : Option ℕ × Link :=
  match l.ssl with
  | some ssl => (some ssl, l)
  | none =>
    if calls.succeed certVerify then (some l.made, { l with made := l.made + 1 })
    else (none, l)

/-- `bufferevent_socket_new` or `bufferevent_openssl_socket_new`, with `BEV_OPT_CLOSE_ON_FREE`.
-/
def Link.socketNew (created : Bool) (l : Link) : Link :=
  match l.ssl with
  | none => { l with client := if created then some ⟨none, false⟩ else none }
  | some ssl =>
    let l := { l with handed := l.handed ++ [(ssl, decide (ssl ∉ l.released))] }
    if created then { l with client := some ⟨some ssl, false⟩ }
    else { l.release (some ssl) with client := none }

/-- The SSL object of an attempt, made if the client needs one and has none. -/
def Link.prepareSsl (params : ConnectionParams) (calls : SslCalls) (l : Link) : Link :=
  if params.isSsl ∧ l.ssl = none then
    let (ssl, l) := l.createSSL params.certVerify calls
    { l with ssl := ssl }
  else l

/-- `_connect`, the lambda of `Connect`. -/
def Link.connectTo (params : ConnectionParams) (a : Attempt) (l : Link) : ℤ × Link :=
  if a.getaddrinfo ≠ 0 ∨ ¬ a.hasResult then
    -- zero, if there is no error and no result
    (a.getaddrinfo, l)
  else
    let l := l.prepareSsl params a.sslCalls
    if params.isSsl ∧ l.ssl = none then (-1, l)
    else
      let l := l.socketNew a.created
      match l.client with
      | none => (-1, l)
      | some bev => if a.socketConnect < 0 then (-1, l.free bev) else (0, l)

/-! ## The client -/

/-- `EventClient`, with the number of timers that are armed. -/
structure EventClient where
  params : ConnectionParams := {}
  link : Link := {}
  isConnected : Bool := false
  isStarted : Bool := false
  etcdLastHosts : Host := ("", "")
  connectionInfo : String := ""
  timers : ℕ := 0

/-- What one `Connect` meets: the lines of the two `etcdctl` commands, and its attempts. -/
structure ConnectEnv where
  memberList : Option (List String) := none
  getPrefix : Option (List String) := none
  attempt : ℕ → Attempt

namespace EventClient

/-- `Close`. -/
def close (s : EventClient) : EventClient := { s with link := s.link.close, isConnected := false }

/-- A host is passed over if there are others and it was the last one. -/
def Skips (s : EventClient) (hosts : List Host) (p : Host) : Prop :=
  1 < hosts.length ∧ s.etcdLastHosts = p

instance (s : EventClient) (hosts : List Host) (p : Host) : Decidable (s.Skips hosts p) :=
  inferInstanceAs (Decidable (_ ∧ _))

/-- The loop over the hosts of etcd, after `n` attempts: whether it returned, and the number
of attempts. -/
def connectHosts (attempt : ℕ → Attempt) (hosts : List Host) :
    List Host → ℕ → EventClient → Bool × ℕ × EventClient
  | [], n, s => (false, n, s)
  | p :: rest, n, s =>
    if s.Skips hosts p then connectHosts attempt hosts rest n s
    else
      let (ret, link) := s.link.connectTo s.params (attempt n)
      let s := { s with link := link }
      if ret = 0 then
        (true, n + 1, { s with
          etcdLastHosts := p
          connectionInfo := "etcd_" ++ p.1 ++ ":" ++ p.2 })
      else connectHosts attempt hosts rest (n + 1) s

/-- The end of `Connect`: the default address. -/
def connectDefault (a : Attempt) (s : EventClient) : ℤ × EventClient :=
  let (ret, link) := s.link.connectTo s.params a
  (ret, { s with
    etcdLastHosts := ("", "")
    connectionInfo := "default_" ++ s.params.address ++ ":" ++ s.params.port
    link := link })

/-- The hosts of etcd, and the default address unless one of them returned. -/
def connectAmong (attempt : ℕ → Attempt) (hosts : List Host) (s : EventClient) :
    ℤ × EventClient :=
  match connectHosts attempt hosts hosts 0 s with
  | (true, _, s) => (0, s)
  | (false, n, s) => s.connectDefault (attempt n)

/-- Etcd is asked if there are endpoints and a key. -/
def UsesEtcd (s : EventClient) : Prop := s.params.etcdEndpoints ≠ "" ∧ s.params.hostkey ≠ ""

instance (s : EventClient) : Decidable s.UsesEtcd := inferInstanceAs (Decidable (_ ∧ _))

/-- `Connect`. -/
def connect (env : ConnectEnv) (s : EventClient) : ℤ × EventClient :=
  let s := s.close
  if s.UsesEtcd then
    let s := match getFullEndpointsEtcd env.memberList with
      | some fullEndpoints => { s with params.etcdEndpoints := fullEndpoints }
      | none => s
    match getMasterHostFromEtcd env.getPrefix with
    | some hosts => s.connectAmong env.attempt hosts
    | none => s.connectDefault (env.attempt 0)
  else s.connectDefault (env.attempt 0)

/-- Whether `event_new` and `event_add` succeed. -/
structure TimerCalls where
  eventNew : Bool := true
  eventAdd : Bool := true

/-- `ReConnect`; what `event_add` returns is not looked at. -/
def reConnect (calls : TimerCalls) (s : EventClient) : ℤ × EventClient :=
  if ¬ calls.eventNew then (-1, s)
  else (0, { s with timers := if calls.eventAdd then s.timers + 1 else s.timers })

/-- `OnDisconnected`. -/
def onDisconnected (calls : TimerCalls) (s : EventClient) : EventClient :=
  if s.isStarted then (s.reConnect calls).2 else s

/-- `BEV_EVENT_EOF`, `BEV_EVENT_ERROR`, `BEV_EVENT_READING` or `BEV_EVENT_WRITING`. -/
def Disconnects (events : UInt16) : Prop := events &&& (0x10 ||| 0x20 ||| 0x01 ||| 0x02) ≠ 0

instance (events : UInt16) : Decidable (Disconnects events) :=
  inferInstanceAs (Decidable (_ ≠ _))

/-- `BEV_EVENT_CONNECTED`. -/
def Connects (events : UInt16) : Prop := events &&& 0x80 ≠ 0

instance (events : UInt16) : Decidable (Connects events) :=
  inferInstanceAs (Decidable (_ ≠ _))

/-- The bufferevent has reported a failure. -/
def reportFailure (s : EventClient) : EventClient :=
  { s with link.client := s.link.client.map fun bev => { bev with failed := true } }

/-- `OnEvent`. -/
def onEvent (events : UInt16) (calls : TimerCalls) (s : EventClient) : EventClient :=
  if Disconnects events then
    { s.reportFailure with isConnected := false }.onDisconnected calls
  else if Connects events then { s with isConnected := true }
  else s

/-- `OnTimeout`, called by a timer that is armed no longer. -/
def onTimeout (env : ConnectEnv) (s : EventClient) : EventClient :=
  let s := { s with timers := s.timers - 1 }
  if ¬ s.isConnected then (s.connect env).2 else s

/-- `Start`, and the `Connect` of the thread it starts. -/
def start (params : ConnectionParams) (env : ConnectEnv) (s : EventClient) : EventClient :=
  ({ s with isStarted := true, params := params }.connect env).2

end EventClient

/-- What can happen: `Start`, the calls a derived class may make, an event on the connection,
a timer that expires. -/
inductive ClientCall
  | start (params : ConnectionParams) (env : ConnectEnv)
  | connect (env : ConnectEnv)
  | close
  | event (events : UInt16) (calls : EventClient.TimerCalls)
  | timeout (env : ConnectEnv)

/-- The client afterwards; an event needs a connection, and an expiry an armed timer. -/
def EventClient.step (s : EventClient) : ClientCall → Option EventClient
  | .start params env => if s.isStarted then none else some (s.start params env)
  | .connect env => some (s.connect env).2
  | .close => some s.close
  | .event events calls =>
    if s.link.client.isSome then some (s.onEvent events calls) else none
  | .timeout env => if s.timers ≠ 0 then some (s.onTimeout env) else none

/-! ## What an attempt does -/

/-- The address is resolved. -/
def Attempt.Resolves (a : Attempt) : Prop := a.getaddrinfo = 0 ∧ a.hasResult = true

instance (a : Attempt) : Decidable a.Resolves := inferInstanceAs (Decidable (_ ∧ _))

/-- An SSL object is needed and cannot be made. -/
def Attempt.LacksSsl (params : ConnectionParams) (hasSsl : Bool) (a : Attempt) : Prop :=
  params.isSsl = true ∧ hasSsl = false ∧ a.sslCalls.succeed params.certVerify = false

instance (params : ConnectionParams) (hasSsl : Bool) (a : Attempt) :
    Decidable (a.LacksSsl params hasSsl) :=
  inferInstanceAs (Decidable (_ ∧ _ ∧ _))

/-- There is a bufferevent, and it starts to connect. -/
def Attempt.Opens (a : Attempt) : Prop := a.created = true ∧ ¬ a.socketConnect < 0

instance (a : Attempt) : Decidable a.Opens := inferInstanceAs (Decidable (_ ∧ _))

/-- How an attempt ends: the next address is tried; `Connect` returns without a connection,
because there was neither an error nor an address; or a connection is under way. -/
inductive AttemptEnd
  | next (hasSsl : Bool)
  | nothing
  | started
  deriving DecidableEq, Repr

/-- How an attempt ends, given whether the client has an SSL object. -/
def Attempt.ending (params : ConnectionParams) (hasSsl : Bool) (a : Attempt) : AttemptEnd :=
  if a.getaddrinfo ≠ 0 then .next hasSsl
  else if ¬ a.hasResult then .nothing
  else if a.LacksSsl params hasSsl then .next false
  else if a.Opens then .started
  else .next (params.isSsl || hasSsl)

namespace Link

/-- The SSL object goes to `bufferevent_openssl_socket_new`. -/
def handOver (l : Link) : Link :=
  { l with handed := l.handed ++ (l.ssl.map fun ssl => (ssl, decide (ssl ∉ l.released))).toList }

variable {params : ConnectionParams} {a : Attempt} {l : Link}

@[simp] theorem close_client (l : Link) : l.close.client = none := by
  unfold close
  split
  · rfl
  · assumption

@[simp] theorem close_ssl (l : Link) : l.close.ssl = l.ssl := by
  unfold close
  split <;> rfl

/-- An SSL object is made exactly where none is there and the calls succeed. -/
theorem prepareSsl_eq (calls : SslCalls) :
    l.prepareSsl params calls =
      if params.isSsl = true ∧ l.ssl = none ∧ calls.succeed params.certVerify = true then
        { l with ssl := some l.made, made := l.made + 1 }
      else l := by
  obtain ⟨client, ssl, made, released, handed⟩ := l
  unfold prepareSsl createSSL
  cases ssl with
  | some ssl => simp
  | none =>
    by_cases hneeds : params.isSsl = true
    · by_cases hmade : calls.succeed params.certVerify = true
      · simp [hneeds, hmade]
      · simp [hneeds, hmade]
    · simp [hneeds]

theorem prepareSsl_of_lacks (h : a.LacksSsl params l.ssl.isSome) :
    l.prepareSsl params a.sslCalls = l := by
  rw [prepareSsl_eq, if_neg]
  rintro ⟨-, -, hmade⟩
  rw [h.2.2] at hmade
  cases hmade

/-- After it the client has an SSL object, if it needs one. -/
theorem prepareSsl_ssl_isSome (h : ¬ a.LacksSsl params l.ssl.isSome) :
    (l.prepareSsl params a.sslCalls).ssl.isSome = (params.isSsl || l.ssl.isSome) := by
  unfold Attempt.LacksSsl at h
  rw [prepareSsl_eq]
  cases hssl : l.ssl with
  | some ssl => simp [hssl]
  | none =>
    cases hneeds : params.isSsl with
    | false => simp [hssl]
    | true =>
      simp only [hneeds, hssl, Option.isSome_none, true_and, Bool.not_eq_false] at h
      simp [h]

@[simp] theorem prepareSsl_client (calls : SslCalls) :
    (l.prepareSsl params calls).client = l.client := by
  rw [prepareSsl_eq]
  split_ifs <;> rfl

theorem socketNew_eq (created : Bool) :
    l.socketNew created =
      if created then { l.handOver with client := some ⟨l.ssl, false⟩ }
      else { l.handOver.release l.ssl with client := none } := by
  unfold socketNew handOver release
  cases hssl : l.ssl <;> cases created <;> simp

/-- What an attempt can do. -/
theorem connectTo_cases (params : ConnectionParams) (a : Attempt) (l : Link) :
    (¬ a.Resolves ∧ l.connectTo params a = (a.getaddrinfo, l)) ∨
    (a.Resolves ∧ a.LacksSsl params l.ssl.isSome ∧ l.connectTo params a = (-1, l)) ∨
    (a.Resolves ∧ ¬ a.LacksSsl params l.ssl.isSome ∧
      let l' := (l.prepareSsl params a.sslCalls).handOver
      (a.Opens ∧ l.connectTo params a = (0, { l' with client := some ⟨l'.ssl, false⟩ })) ∨
      (¬ a.Opens ∧ l.connectTo params a = (-1, { l'.release l'.ssl with client := none }))) := by
  by_cases hres : a.Resolves
  · have hskip : ¬ (a.getaddrinfo ≠ 0 ∨ ¬ a.hasResult = true) := by
      rw [not_or, not_not, not_not]
      exact hres
    refine .inr ?_
    unfold connectTo
    rw [if_neg hskip]
    by_cases hlacks : a.LacksSsl params l.ssl.isSome
    · have hnone : l.ssl = none := Option.isNone_iff_eq_none.mp (by simpa using hlacks.2.1)
      exact .inl ⟨hres, hlacks, by
        simp only [prepareSsl_of_lacks hlacks]
        rw [if_pos ⟨hlacks.1, hnone⟩]⟩
    · refine .inr ⟨hres, hlacks, ?_⟩
      have hssl := prepareSsl_ssl_isSome hlacks
      have hready : ¬ (params.isSsl = true ∧ (l.prepareSsl params a.sslCalls).ssl = none) := by
        rintro ⟨hneeds, hnone⟩
        rw [hnone, hneeds] at hssl
        simp at hssl
      generalize l.prepareSsl params a.sslCalls = l' at hready
      simp only [if_neg hready, socketNew_eq]
      -- `client_` is set, and freed again where the connect fails at once
      unfold Attempt.Opens
      cases a.created with
      | false => exact .inr ⟨by simp, by simp [handOver, release]⟩
      | true =>
        by_cases hfail : a.socketConnect < 0
        · exact .inr ⟨by simp [hfail], by simp [hfail, handOver, release, free]⟩
        · exact .inl ⟨by simp [hfail], by simp [hfail, handOver]⟩
  · refine .inl ⟨hres, ?_⟩
    unfold connectTo
    rw [if_pos]
    by_contra hskip
    rw [not_or, not_not, not_not] at hskip
    exact hres hskip

/-- The ending tells what `_connect` returns, and what is left of the attempt. -/
theorem connectTo_spec (hclient : l.client = none) :
    let r := l.connectTo params a
    match a.ending params l.ssl.isSome with
    | .next hasSsl => r.1 ≠ 0 ∧ r.2.client = none ∧ r.2.ssl.isSome = hasSsl
    | .nothing => r.1 = 0 ∧ r.2.client = none
    | .started => r.1 = 0 ∧ ∃ ssl, r.2.client = some ⟨ssl, false⟩ := by
  unfold Attempt.ending
  rcases connectTo_cases params a l with ⟨hres, heq⟩ | ⟨⟨hget, hresult⟩, hlacks, heq⟩ |
    ⟨⟨hget, hresult⟩, hlacks, ⟨hopens, heq⟩ | ⟨hopens, heq⟩⟩
  · rw [heq]
    by_cases hget : a.getaddrinfo = 0
    · have hresult : ¬ a.hasResult = true := fun h => hres ⟨hget, h⟩
      simp [hget, hresult, hclient]
    · simp [hget, hclient]
  · have hnone : l.ssl.isSome = false := hlacks.2.1
    rw [hnone] at hlacks ⊢
    rw [heq]
    simp [hget, hresult, hlacks, hclient, hnone]
  · rw [heq]
    simp [hget, hresult, hlacks, hopens]
  · have hssl := prepareSsl_ssl_isSome hlacks
    rw [heq]
    simp [hget, hresult, hlacks, hopens, release, handOver, hssl]

/-- Attempts in a row, until one returns zero. -/
def tryAll (params : ConnectionParams) : List Attempt → Link → Bool × Link
  | [], l => (false, l)
  | a :: as, l =>
    let (ret, l) := l.connectTo params a
    if ret = 0 then (true, l) else tryAll params as l

theorem tryAll_append (params : ConnectionParams) (as bs : List Attempt) (l : Link) :
    tryAll params (as ++ bs) l =
      if (tryAll params as l).1 then tryAll params as l
      else tryAll params bs (tryAll params as l).2 := by
  induction as generalizing l with
  | nil => simp [tryAll]
  | cons a as ih =>
    simp only [List.cons_append, tryAll]
    by_cases hret : (l.connectTo params a).1 = 0
    · simp [hret]
    · simp only [hret, if_false]
      exact ih _

theorem tryAll_singleton (params : ConnectionParams) (a : Attempt) (l : Link) :
    (tryAll params [a] l).2 = (l.connectTo params a).2 := by
  simp only [tryAll]
  split_ifs <;> rfl

/-- The attempts do not read the endpoints of etcd. -/
theorem tryAll_etcdEndpoints (params : ConnectionParams) (endpoints : String)
    (as : List Attempt) (l : Link) :
    tryAll { params with etcdEndpoints := endpoints } as l = tryAll params as l := by
  induction as generalizing l with
  | nil => rfl
  | cons a as ih =>
    have hone : l.connectTo { params with etcdEndpoints := endpoints } a = l.connectTo params a :=
      rfl
    simp only [tryAll, hone, ih]

end Link

namespace EventClient

variable {env : ConnectEnv} {s : EventClient}

/-- The hosts etcd names; none, if it is not asked. -/
def etcdHosts (env : ConnectEnv) (s : EventClient) : List Host :=
  if s.UsesEtcd then (getMasterHostFromEtcd env.getPrefix).getD [] else []

/-- The attempts of a `Connect`, if none returns zero: the hosts that are not passed over, then
the default address. -/
def attempts (env : ConnectEnv) (s : EventClient) : List Attempt :=
  (List.range (((s.etcdHosts env).filter fun p => ¬ s.Skips (s.etcdHosts env) p).length + 1)).map
    env.attempt

/-- `s'` is `s` with another connection; what a `Connect` notes about addresses aside. -/
structure Reaches (s s' : EventClient) (link : Link) : Prop where
  link : s'.link = link
  isConnected : s'.isConnected = s.isConnected
  isStarted : s'.isStarted = s.isStarted
  timers : s'.timers = s.timers

/-- The loop over the hosts is attempts in a row. -/
theorem connectHosts_eq (attempt : ℕ → Attempt) (hosts rest : List Host) (n : ℕ)
    (s : EventClient) :
    let k := (rest.filter fun p => ¬ s.Skips hosts p).length
    let r := connectHosts attempt hosts rest n s
    let q := Link.tryAll s.params ((List.range' n k).map attempt) s.link
    r.1 = q.1 ∧ (r.1 = false → r.2 = (n + k, { s with link := q.2 })) ∧ s.Reaches r.2.2 q.2 := by
  induction rest generalizing n s with
  | nil => exact ⟨rfl, fun _ => rfl, ⟨rfl, rfl, rfl, rfl⟩⟩
  | cons p rest ih =>
    unfold connectHosts
    by_cases hskip : s.Skips hosts p
    · simp only [List.filter_cons, hskip, not_true_eq_false, decide_false,
        Bool.false_eq_true, if_false]
      exact ih n s
    · simp only [List.filter_cons, hskip, not_false_eq_true, decide_true, if_true, if_false,
        List.length_cons, List.range'_succ, List.map_cons, Link.tryAll]
      by_cases hret : (s.link.connectTo s.params (attempt n)).1 = 0
      · simp only [hret, if_true]
        exact ⟨trivial, fun h => Bool.noConfusion h, ⟨rfl, rfl, rfl, rfl⟩⟩
      · simp only [hret, if_false]
        -- the hosts that are passed over stay the same
        obtain ⟨hreturned, hnext, hframe⟩ :=
          ih (n + 1) { s with link := (s.link.connectTo s.params (attempt n)).2 }
        refine ⟨hreturned, fun h => (hnext h).trans ?_, ⟨hframe.1, hframe.2, hframe.3, hframe.4⟩⟩
        rw [Nat.add_right_comm]
        rfl

/-- With the default address behind them. -/
theorem connectAmong_reaches (attempt : ℕ → Attempt) (hosts : List Host) (s : EventClient) :
    let k := (hosts.filter fun p => ¬ s.Skips hosts p).length
    s.Reaches (s.connectAmong attempt hosts).2
      (Link.tryAll s.params ((List.range (k + 1)).map attempt) s.link).2 := by
  intro k
  obtain ⟨hreturned, hnext, hframe⟩ := connectHosts_eq attempt hosts hosts 0 s
  rw [← List.range_eq_range'] at hreturned hnext hframe
  rw [List.range_succ, List.map_append, Link.tryAll_append, List.map_singleton]
  unfold connectAmong
  cases hdone : (connectHosts attempt hosts hosts 0 s).1 with
  | true =>
    rw [hdone] at hreturned
    have hsplit : connectHosts attempt hosts hosts 0 s =
        (true, (connectHosts attempt hosts hosts 0 s).2.1,
          (connectHosts attempt hosts hosts 0 s).2.2) := by
      rw [← hdone]
    rw [hsplit, if_pos hreturned.symm]
    exact hframe
  | false =>
    rw [hdone] at hreturned
    have hsplit : connectHosts attempt hosts hosts 0 s = (false, 0 + k,
        { s with link := (Link.tryAll s.params ((List.range k).map attempt) s.link).2 }) := by
      rw [← hnext hdone, ← hdone]
    rw [hsplit, Nat.zero_add, if_neg (by rw [← hreturned]; exact Bool.false_ne_true),
      Link.tryAll_singleton]
    exact ⟨rfl, rfl, rfl, rfl⟩

/-- `Connect` is its attempts, on the connection that was closed. -/
theorem connect_reaches (env : ConnectEnv) (s : EventClient) :
    s.close.Reaches (s.connect env).2
      (Link.tryAll s.params (s.attempts env) s.link.close).2 := by
  have hdefault : ∀ s : EventClient, s.connectDefault (env.attempt 0) =
      s.connectAmong env.attempt [] := fun _ => rfl
  by_cases hetcd : s.UsesEtcd
  · have hclose : s.close.UsesEtcd := hetcd
    obtain ⟨endpoints, hendpoints⟩ : ∃ endpoints,
        (match getFullEndpointsEtcd env.memberList with
          | some fullEndpoints => { s.close with params.etcdEndpoints := fullEndpoints }
          | none => s.close) = { s.close with params.etcdEndpoints := endpoints } := by
      cases getFullEndpointsEtcd env.memberList with
      | none => exact ⟨s.params.etcdEndpoints, rfl⟩
      | some fullEndpoints => exact ⟨fullEndpoints, rfl⟩
    have hconnect : s.connect env = ({ s.close with params.etcdEndpoints := endpoints } :
        EventClient).connectAmong env.attempt (s.etcdHosts env) := by
      unfold connect etcdHosts
      simp only [if_pos hclose, if_pos hetcd, hendpoints]
      cases getMasterHostFromEtcd env.getPrefix with
      | none => exact hdefault _
      | some hosts => rfl
    have hreaches := connectAmong_reaches env.attempt (s.etcdHosts env)
      { s.close with params.etcdEndpoints := endpoints }
    rw [hconnect, ← Link.tryAll_etcdEndpoints s.params endpoints]
    exact ⟨hreaches.1, hreaches.2, hreaches.3, hreaches.4⟩
  · have hclose : ¬ s.close.UsesEtcd := hetcd
    have hconnect : s.connect env = s.close.connectAmong env.attempt (s.etcdHosts env) := by
      unfold connect etcdHosts
      simp only [if_neg hclose, if_neg hetcd]
      exact hdefault _
    rw [hconnect]
    exact connectAmong_reaches env.attempt (s.etcdHosts env) s.close

end EventClient

end SampleTools
