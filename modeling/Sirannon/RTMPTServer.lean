import Mathlib.Tactic

/-!
# RTMPT server

Every connection is shared by the sockets whose requests name it and by the
session that was opened with it. Two flags say which side is done with it, and
the side that comes last deletes it. A step is a section under a lock, or one
look at a flag outside of all locks.
-/

set_option autoImplicit false

namespace Sirannon.RTMPT

inductive Command
  | fcs | «open» | idle | send | close | unknown
  deriving DecidableEq, Repr

inductive RequestMode
  | OPEN | IDLE | SEND | CLOSE
  deriving DecidableEq, Repr

/-- How far a request is, from the look at its URL to the end of `parseHTTPRequest`. -/
inductive Phase
  | replying | tunnelling | terminating | testInternal | testExternal | deleting
  deriving DecidableEq, Repr

/-- The thread of a socket; `pConnection` is an address. -/
inductive Handler
  | receiving
  | returned
  | handling (iMode : RequestMode) (pConnection : ℕ) (phase : Phase)
  deriving DecidableEq, Repr

/-- The session of a connection, on its way through `endSession`. -/
inductive Session
  | none
  | running
  | testStopped
  | ending (bDelete : Bool)
  | ended
  deriving DecidableEq, Repr

def Handler.isBusy : Handler → Bool
  | .handling _ _ _ => true
  | _ => false

def Session.isEnding : Session → Bool
  | .testStopped => true
  | .ending _ => true
  | _ => false

/-- `bClosed` is set when a request to close the connection has been handled. -/
structure SharedConnection where
  hash : String
  terminateExternal : Bool
  terminateInternal : Bool
  session : Session
  bClosed : Bool
  deriving DecidableEq, Repr

def SharedConnection.new : SharedConnection := ⟨"", false, false, .none, false⟩

abbrev UrlMap := List (String × Option ℕ)

/-- The last three fields count deletions and remember uses of what is deleted or `NULL`. -/
structure RTMPTServer where
  mUrl2Connection : UrlMap
  connections : ℕ → SharedConnection
  iConnections : ℕ
  handlers : ℕ → Handler
  iSockets : ℕ
  bStop : Bool
  bDestroyed : Bool
  iDeleted : ℕ → ℕ
  bDangling : Bool
  bNull : Bool

/-! ## The map -/

namespace UrlMap

def find (m : UrlMap) (sHash : String) : Option (Option ℕ) :=
  (m.find? (fun e => e.1 = sHash)).map Prod.snd

def erase (m : UrlMap) (sHash : String) : UrlMap := m.filter (fun e => e.1 ≠ sHash)

def insert (m : UrlMap) (sHash : String) (v : Option ℕ) : UrlMap := (sHash, v) :: m.erase sHash

/-- The value `[]` returns. -/
def value (m : UrlMap) (sHash : String) : Option ℕ := (m.find sHash).join

/-- What `[]` leaves behind. -/
def touched (m : UrlMap) (sHash : String) : UrlMap :=
  if (m.find sHash).isNone then m.insert sHash none else m

end UrlMap

/-! ## Parts of steps -/

namespace RTMPTServer

variable (s : RTMPTServer)

def new : RTMPTServer where
  mUrl2Connection := []
  connections := fun _ => SharedConnection.new
  iConnections := 0
  handlers := fun _ => .returned
  iSockets := 0
  bStop := false
  bDestroyed := false
  iDeleted := fun _ => 0
  bDangling := false
  bNull := false

def «at» (i : ℕ) (handler : Handler) : RTMPTServer :=
  { s with handlers := Function.update s.handlers i handler }

def used (c : ℕ) : RTMPTServer := { s with bDangling := s.bDangling || decide (0 < s.iDeleted c) }

def deleted (c : ℕ) : RTMPTServer :=
  { s with iDeleted := Function.update s.iDeleted c (s.iDeleted c+1) }

def setConnection (c : ℕ) (connection : SharedConnection) : RTMPTServer :=
  { s with connections := Function.update s.connections c connection }

def withMap (m : UrlMap) : RTMPTServer := { s with mUrl2Connection := m }

/-- The end of a request: when it was one to close the connection, that has been handled now. -/
def finished (i : ℕ) (iMode : RequestMode) (c : ℕ) (handler : Handler) : RTMPTServer :=
  let s' := s.at i handler
  if iMode = .CLOSE then s'.setConnection c { s'.connections c with bClosed := true } else s'

/-! ## Requests -/

/-- A new connection, still without a place in the map. -/
def allocated : RTMPTServer := { s with iConnections := s.iConnections+1 }

/-- The branch of `analyzeUrl` for `open`; the hash is random. -/
def openConnection (i : ℕ) (sHash : String) : RTMPTServer :=
  let c := s.iConnections
  if (s.mUrl2Connection.value sHash).isSome then s.allocated.at i .returned
  else
    ((s.allocated.setConnection c ⟨sHash, false, false, .running, false⟩).withMap
      (s.mUrl2Connection.insert sHash (some c))).at i (.handling .OPEN c .replying)

/-- The branch for `idle` and `send`. -/
def findConnection (i : ℕ) (iMode : RequestMode) (sHash : String) : RTMPTServer :=
  match s.mUrl2Connection.value sHash with
  | none => (s.withMap (s.mUrl2Connection.erase sHash)).at i .returned
  | some c => s.at i (.handling iMode c .tunnelling)

def closeConnection (i : ℕ) (sHash : String) : RTMPTServer :=
  match s.mUrl2Connection.value sHash with
  | none => (s.withMap (s.mUrl2Connection.touched sHash)).at i .returned
  | some c => (s.withMap (s.mUrl2Connection.erase sHash)).at i (.handling .CLOSE c .replying)

def analyzeUrl (i : ℕ) (sMode : Command) (sHash : String) : RTMPTServer :=
  match sMode with
  | .fcs => s
  | .open => s.openConnection i sHash
  | .idle => s.findConnection i .IDLE sHash
  | .send => s.findConnection i .SEND sHash
  | .close => s.closeConnection i sHash
  | .unknown => s.at i .returned

/-- The part of a `send` or `idle` request under the lock of the connection. It returns early when
the buffer is full or the reply cannot be sent. -/
def tunnel (i : ℕ) (iMode : RequestMode) (c : ℕ) (bSent : Bool) : RTMPTServer :=
  if bSent then (s.used c).at i (.handling iMode c .testInternal)
  else (s.used c).at i .returned

/-- The reply to an `open` request names the hash, that to a `close` request nothing. -/
def reply (i : ℕ) (iMode : RequestMode) (c : ℕ) (bSent : Bool) : RTMPTServer :=
  let s' := if iMode = .OPEN then s.used c else s
  if bSent then s'.at i (.handling iMode c (if iMode = .OPEN then .testInternal else .terminating))
  else s'.finished i iMode c .returned

def terminate (i : ℕ) (iMode : RequestMode) (c : ℕ) : RTMPTServer :=
  ((s.used c).setConnection c { s.connections c with terminateExternal := true }).at i
    (.handling iMode c .testInternal)

def testInternal (i : ℕ) (iMode : RequestMode) (c : ℕ) : RTMPTServer :=
  if (s.connections c).terminateInternal then (s.used c).at i (.handling iMode c .testExternal)
  else (s.used c).finished i iMode c .receiving

def testExternal (i : ℕ) (iMode : RequestMode) (c : ℕ) : RTMPTServer :=
  if (s.connections c).terminateExternal then (s.used c).at i (.handling iMode c .deleting)
  else (s.used c).finished i iMode c .receiving

def delete (i : ℕ) (iMode : RequestMode) (c : ℕ) : RTMPTServer :=
  let s' := (s.used c).withMap (s.mUrl2Connection.erase (s.connections c).hash)
  (s'.deleted c).finished i iMode c .receiving

/-! ## Sessions -/

def setSession (c : ℕ) (session : Session) : RTMPTServer :=
  s.setConnection c { s.connections c with session := session }

def endSession (c : ℕ) : RTMPTServer :=
  (s.used c).setSession c
    (if (s.connections c).terminateExternal then .ending true else .testStopped)

def testStopped (c : ℕ) : RTMPTServer := s.setSession c (.ending s.bStop)

def endFinish (c : ℕ) (bDelete : Bool) : RTMPTServer :=
  if bDelete then (s.deleted c).setSession c .ended
  else (s.used c).setConnection c
    { s.connections c with terminateInternal := true, session := .ended }

/-! ## The end of the server -/

def destructEntry : Option ℕ → RTMPTServer
  | none => { s with bNull := true }
  | some c => if (s.connections c).terminateInternal then (s.used c).deleted c else s.used c

def destruct : RTMPTServer :=
  { s.mUrl2Connection.foldl (fun s e => s.destructEntry e.2) s with bDestroyed := true }

/-- The sessions that are left go with the server, and `endSession` of its base class deletes. -/
def endLate (c : ℕ) : RTMPTServer := (s.deleted c).setSession c .ended

end RTMPTServer

/-! ## Steps -/

inductive Action
  | accept
  | hangUp (i : ℕ)
  | request (i : ℕ) (sMode : Command) (sHash : String)
  | handle (i : ℕ) (bSent : Bool)
  | useConnection (c : ℕ)
  | endSession (c : ℕ)
  | stop
  | destruct
  deriving DecidableEq, Repr

namespace RTMPTServer

variable (s : RTMPTServer)

/-- The next step of a request that has found its connection. -/
def handle (i : ℕ) (iMode : RequestMode) (c : ℕ) (bSent : Bool) : Phase → RTMPTServer
  | .replying => s.reply i iMode c bSent
  | .tunnelling => s.tunnel i iMode c bSent
  | .terminating => s.terminate i iMode c
  | .testInternal => s.testInternal i iMode c
  | .testExternal => s.testExternal i iMode c
  | .deleting => s.delete i iMode c

/-- The next step of a session on its way out; the last one is for a server that is gone. -/
def nextEnding (c : ℕ) : Session → Option RTMPTServer
  | .none => none
  | .running => some (if s.bDestroyed then s.endLate c else s.endSession c)
  | .testStopped => some (s.testStopped c)
  | .ending bDelete => some (s.endFinish c bDelete)
  | .ended => none

/-- All threads have been joined before the server is destroyed. -/
def quiet : Bool :=
  (List.range s.iSockets).all (fun i => !(s.handlers i).isBusy) &&
    (List.range s.iConnections).all (fun c => !(s.connections c).session.isEnding)

def step : Action → Option RTMPTServer
  | .accept =>
    if s.bDestroyed then none
    else some ({ s with iSockets := s.iSockets+1 }.at s.iSockets .receiving)
  | .hangUp i =>
    if s.bDestroyed = false ∧ s.handlers i = .receiving then some (s.at i .returned) else none
  | .request i sMode sHash =>
    if s.bDestroyed = false ∧ s.handlers i = .receiving then some (s.analyzeUrl i sMode sHash)
    else none
  | .handle i bSent =>
    match s.handlers i with
    | .handling iMode c phase => if s.bDestroyed then none else some (s.handle i iMode c bSent phase)
    | _ => none
  | .useConnection c => if (s.connections c).session = .running then some (s.used c) else none
  | .endSession c => s.nextEnding c (s.connections c).session
  | .stop => some { s with bStop := true }
  | .destruct => if s.bStop && !s.bDestroyed && s.quiet then some s.destruct else none

def run : List Action → RTMPTServer → Option RTMPTServer
  | [], s => some s
  | a::actions, s => (s.step a).bind (run actions)

end RTMPTServer

end Sirannon.RTMPT
