import Reticulum.Link
import Reticulum.Crypto
import Reticulum.Filepath
import Reticulum.Threads

/-! # The file-copy listener (cmd/gorncp/listen.go)

Who may fetch is decided by the policy of the handler, the callback that runs when the remote side has identified, and
the handler. Packets are handled by any number of threads, and each request by one of its own; the code between two
looks at the state of the link is a section. -/

namespace Reticulum.Rncp
open Filepath (Path separator)

structure Listener where
  allowFetch : Bool
  jail : Path
  noAuth : Bool
  allowedIdentityHashes : List Bytes

def trimPrefix (start s : Path) : Path := if start <+: s then s.drop start.length else s

/-- The file a request is for, unless the handler refuses it. -/
def Listener.fetchPath (l : Listener) (data : Bytes) : Option Path :=
  if l.allowFetch = false then none
  else if l.jail = [] then some data
  else
    let root := l.jail ++ [separator]
    let dataStr := if root <+: data then data else trimPrefix root data
    let filePath := Filepath.clean (Filepath.join [l.jail, dataStr])
    if root <+: filePath then some filePath else none

/-- `fetch_file`. -/
def fetchRequestPath : Bytes := [102, 101, 116, 99, 104, 95, 102, 105, 108, 101]

/-- The handler as `doListen` registers it. -/
def fetchHandler : RequestHandler where
  path := fetchRequestPath
  allow := .allowAll
  allowedList := []

def requestHandler (pathHash : Bytes) : Option RequestHandler :=
  if pathHash = truncatedHash fetchRequestPath then some fetchHandler else none

structure Request where
  pathHash : Bytes
  data : Bytes
deriving DecidableEq

/-- What the fetch handler returns: `0xF0`, `false`, `nil` or `true`. -/
inductive FetchResponse where
  | notAllowed
  | notFound
  | nothing
  | sending
deriving DecidableEq

/-- Packets on the link, once decrypted. Identify packets carry the identity if its signature verifies. -/
inductive LinkPacket where
  | rtt (valid : Bool)
  | identify (identity : Option Bytes)
  | request (request : Request)
  | close
  | other
deriving DecidableEq

structure Fetch where
  remoteIdentity : Option Bytes
  path : Path
deriving DecidableEq

structure LinkState where
  status : LinkStatus := .handshake
  remoteIdentity : Option Bytes := none
  /-- Whether the callback is the listener's, copied from the destination when the link request arrives. -/
  establishedCallback : Bool := true
  /-- Whether `callbacks.RemoteIdentified` is set. -/
  identifiedCallback : Bool := false
  read : List Fetch := []
  sent : List Fetch := []
  responses : List FetchResponse := []
deriving DecidableEq

inductive LinkPoint where
  | receive (packet : LinkPacket)
  | handleRequest (request : Request)
  | watchdog
  | teardown
  | dispatch (packet : LinkPacket)
  | activate (valid : Bool)
  | established
  | verified (identity : Bytes)
  | identified (identity : Bytes)
  | respond (handler : RequestHandler) (data : Bytes)
  | stat (fetch : Fetch)
  | findLink (fetch : Fetch)
  | readFile (fetch : Fetch)
  | newResource (fetch : Fetch)
  | advertise (fetch : Fetch)
deriving DecidableEq

namespace LinkPoint

def isEntry : LinkPoint → Bool
  | receive _ | handleRequest _ | watchdog | teardown => true
  | _ => false

end LinkPoint

namespace LinkState
open LinkPoint

def answer (s : LinkState) (response : FetchResponse) : LinkState × List LinkPoint :=
  ({ s with responses := response :: s.responses }, [])

/-- The packet handlers of `receive`. Apart from the RTT, packets on a closed link are dropped. -/
def dispatched (s : LinkState) : LinkPacket → LinkState × List LinkPoint
  | .rtt valid => (s, if s.status.awaitsRTT then [activate valid] else [])
  | .identify identity => (s, if s.status = .closed then [] else identity.toList.map verified)
  | .request request => (s, if s.status = .closed then [] else [handleRequest request])
  | .close => ({ s with status := .closed }, [])
  | .other => (s, [])

/-- One section. The input says whether a verified identity is not blackholed, whether the watchdog's time
    is up, and whether the calls that the handler makes succeed. -/
def exec (l : Listener) (s : LinkState) (t : LinkPoint) (ok : Bool) : LinkState × List LinkPoint :=
  match t with
  | receive packet => ({ s with status := s.status.revive }, [dispatch packet])
  | dispatch packet => s.dispatched packet
  | activate valid =>
    -- The status is stored without another look at it.
    if valid then ({ s with status := .active }, if s.establishedCallback then [established] else [])
    else (s, [teardown])
  | established => ({ s with identifiedCallback := true }, [])
  | verified identity =>
    if ok then ({ s with remoteIdentity := some identity }, [identified identity]) else (s, [teardown])
  | identified identity =>
    (s, if s.identifiedCallback ∧ identity ∉ l.allowedIdentityHashes ∧ l.noAuth = false then [teardown] else [])
  | teardown => ({ s with status := .closed }, [])
  | watchdog =>
    if ok then
      match s.status with
      | .closed => (s, [])
      | .pending | .handshake => ({ s with status := .closed }, [])
      | .active => ({ s with status := .stale }, [])
      -- The teardown packet is sent before the link is closed.
      | .stale => (s, [teardown])
    else (s, [])
  | handleRequest request =>
    if s.status = .active then (s, (requestHandler request.pathHash).toList.map (respond · request.data))
    else (s, [])
  | respond handler data =>
    if handler.allows s.remoteIdentity then
      match l.fetchPath data with
      | none => s.answer .notAllowed
      | some path => (s, [stat ⟨s.remoteIdentity, path⟩])
    else (s, [])
  | stat fetch => if ok then (s, [findLink fetch]) else s.answer .notFound
  | findLink fetch => if ok then (s, [readFile fetch]) else s.answer .nothing
  | readFile fetch =>
    if ok then ({ s with read := fetch :: s.read }, [.newResource fetch]) else s.answer .notFound
  | .newResource fetch => if s.status = .active ∧ ok then (s, [advertise fetch]) else s.answer .notFound
  | advertise fetch =>
    { s with sent := fetch :: s.sent }.answer (if ok then .sending else .notFound)

end LinkState

def system (l : Listener) : Threads.System LinkState LinkPoint Bool where
  entry := LinkPoint.isEntry
  exec s t ok := some (s.exec l t ok)

end Reticulum.Rncp
