import Gridnet.Bytes
import Mathlib.Logic.Function.Basic

/-! Which connections the network manager allows: by the lists of addresses that are known to be good or banned, by how
many connections an address has open, and by how often it connects within a window of time. -/

namespace Gridnet

inductive eTransportType where
  | SSH
  | WebSocket
  | UDT
  | local
  | HTTPRequest
  | HTTPConnection
  | Proxy
  | HTTPAPIRequest
  | QUIC
  deriving DecidableEq, Repr

inductive eIncomingConnectionResult where
  | allowed
  | DOS
  | limitReached
  | onlyBootstrapNodesAllowed
  | insufficientResources
  deriving DecidableEq, Repr

namespace eTransportType

def isHttp : eTransportType → Bool
  | WebSocket | HTTPRequest | HTTPAPIRequest | HTTPConnection => true
  | _ => false

def isHTTPNewConnection (transport : eTransportType) : Bool := transport = HTTPConnection

def isHTTPAPIRequest (transport : eTransportType) : Bool := transport = HTTPAPIRequest

def isWebSocket (transport : eTransportType) : Bool := transport = WebSocket

/-- Those that blocks are exchanged over. -/
def isDataExchange : eTransportType → Bool
  | UDT | QUIC => true
  | _ => false

end eTransportType

/-- The counters of a window. -/
inductive ConnectionCounter where
  | general
  | http
  | api
  deriving DecidableEq, Repr

def eTransportType.counter (transport : eTransportType) : ConnectionCounter :=
  if transport.isHTTPAPIRequest then .api
  else if transport.isHttp && !transport.isWebSocket && !transport.isHTTPNewConnection then .http
  else .general

structure CGlobalSecSettings where
  maxHTTPConnectionsPerIP : UInt64
  firewallTimeWindowSize : UInt64
  banDTIPeersForSecs : UInt64
  banHTTPAPIPeersForSecs : UInt64
  maxHttpAPIReqInTimeWindow : UInt64
  maxHttpReqInTimeWindow : UInt64
  maxConnPerTimeWindow : UInt64

namespace Firewall

/-- What is kept of an address for the current window. -/
structure ConnectionsPerWindow where
  generalCounter : UInt64
  lastReset : UInt64
  httpCounter : UInt64
  ipBytes : Bytes
  lastSeen : UInt64
  apiCounter : UInt64
  deriving DecidableEq, Repr

namespace ConnectionsPerWindow

def count (conns : ConnectionsPerWindow) : ConnectionCounter → UInt64
  | .general => conns.generalCounter
  | .http => conns.httpCounter
  | .api => conns.apiCounter

def increment (conns : ConnectionsPerWindow) : ConnectionCounter → ConnectionsPerWindow
  | .general => { conns with generalCounter := conns.generalCounter + 1 }
  | .http => { conns with httpCounter := conns.httpCounter + 1 }
  | .api => { conns with apiCounter := conns.apiCounter + 1 }

/-- A new entry, for its first connection. -/
def first (counter : ConnectionCounter) (currentTime : UInt64) (ip : Bytes) : ConnectionsPerWindow :=
  increment ⟨0, currentTime, 0, ip, currentTime, 0⟩ counter

end ConnectionsPerWindow

/-- The firewall of the network manager. The maps are by the hash of an address, whose ban is the time of its end and
how often it was told of it. -/
structure CNetworkManager where
  mBannedIPs : Bytes → Option (UInt64 × UInt64)
  mConnectionsPerWindowIPs : Bytes → Option ConnectionsPerWindow
  mConcurrentHTTPConnections : Bytes → Option UInt64
  mWhitelist : List Bytes

/-- What is asked of others about an address while it is checked. -/
structure Surroundings where
  isIPAddressLocal : Bool
  isPrivateIpAddress : Bool
  setWhitelistedIPs : Bool
  hasResourcesForConnection : Bool
  getUIDebugModeActive : Bool
  getUIDebuggingIPv4 : Bytes
  getMaintainConnectivityOnlyWithBootstrapNodes : Bool
  getIsBootstrapNode : Bool
  connectionDuration : UInt64
  conversations : ℕ
  /-- What a rule for the kernel comes to, where the kernel is used. -/
  addKernelFirewallRule : Option Bool

def initial : CNetworkManager := ⟨fun _ => none, fun _ => none, fun _ => none, []⟩

section Model

variable (settings : CGlobalSecSettings) (getSHA2_256Vec : Bytes → Bytes) (validateIPv4 : Bytes → Bool)

namespace CNetworkManager

def setConnections (s : CNetworkManager) (ipHash : Bytes) (conns : ConnectionsPerWindow) : CNetworkManager :=
  { s with mConnectionsPerWindowIPs := Function.update s.mConnectionsPerWindowIPs ipHash (some conns) }

/-! ### Lists of addresses -/

def whitelist (s : CNetworkManager) (address : Bytes) (setWhitelistedIPs : Bool) : Bool × CNetworkManager :=
  if address = [] ∨ address ∈ s.mWhitelist then (false, s)
  else (setWhitelistedIPs, { s with mWhitelist := s.mWhitelist ++ [address] })

def unWhitelist (s : CNetworkManager) (address : Bytes) (setWhitelistedIPs : Bool) : Bool × CNetworkManager :=
  if address ∈ s.mWhitelist then (setWhitelistedIPs, { s with mWhitelist := s.mWhitelist.erase address })
  else (false, s)

def getIsWhitelisted (s : CNetworkManager) (address : Bytes) : Bool := address ∈ s.mWhitelist

def clearHTTPConnectionCounter (s : CNetworkManager) (ip : Bytes) : CNetworkManager :=
  if ip = [] ∨ validateIPv4 ip = false then s
  else { s with
    mConcurrentHTTPConnections := Function.update s.mConcurrentHTTPConnections (getSHA2_256Vec ip) none }

/-- `127.0.0.1`. -/
def localhost : Bytes := [49, 50, 55, 46, 48, 46, 48, 46, 49]

def banIP (s : CNetworkManager) (currentTime : UInt64) (ip : Bytes) (time : UInt64) (useKernelMode : Bool)
    (surroundings : Surroundings) : Bool × CNetworkManager :=
  if ip = localhost then (false, s)
  else
    let banDuration := currentTime + if time = 0 then settings.banDTIPeersForSecs else time
    let banned := { s with mBannedIPs := Function.update s.mBannedIPs (getSHA2_256Vec ip) (some (banDuration, 0)) }
    (if useKernelMode then surroundings.addKernelFirewallRule.getD true else true,
      banned.clearHTTPConnectionCounter getSHA2_256Vec validateIPv4 ip)

def pardonPeer (s : CNetworkManager) (address : Bytes) : Bool × CNetworkManager :=
  if address = [] then (false, s)
  else
    let tag := getSHA2_256Vec address
    let pardoned := { s with mBannedIPs := Function.update s.mBannedIPs tag none }
    match s.mConnectionsPerWindowIPs tag with
    | some conns => (true, pardoned.setConnections tag { conns with generalCounter := 0, httpCounter := 0 })
    | none => (false, pardoned)

def clearDataSet (s : CNetworkManager) : CNetworkManager :=
  { s with mConnectionsPerWindowIPs := fun _ => none, mBannedIPs := fun _ => none }

/-- Whether there is a ban that is not over. -/
def isBanned (s : CNetworkManager) (currentTime : UInt64) (ipHash : Bytes) : Bool :=
  match s.mBannedIPs ipHash with
  | some (bannedTill, _) => bannedTill ≠ 0 ∧ bannedTill > currentTime
  | none => false

/-! ### Open connections -/

def getHTTPConnectionsCount (s : CNetworkManager) (ip : Bytes) : UInt64 :=
  (s.mConcurrentHTTPConnections (getSHA2_256Vec ip)).getD 0

def incrementHTTPConnection (s : CNetworkManager) (ip : Bytes) : Bool × CNetworkManager :=
  let currentCount := s.getHTTPConnectionsCount getSHA2_256Vec ip
  if currentCount ≥ settings.maxHTTPConnectionsPerIP then (false, s)
  else (true, { s with
    mConcurrentHTTPConnections :=
      Function.update s.mConcurrentHTTPConnections (getSHA2_256Vec ip) (some (currentCount + 1)) })

/-- The same counter as for the other connections. -/
def incrementWebSocketConnection (s : CNetworkManager) (ip : Bytes) : Bool × CNetworkManager :=
  s.incrementHTTPConnection settings getSHA2_256Vec ip

def decrementHTTPConnection (s : CNetworkManager) (ip : Bytes) : CNetworkManager :=
  match s.mConcurrentHTTPConnections (getSHA2_256Vec ip) with
  | some count =>
      let left := if count > 0 then count - 1 else count
      { s with
        mConcurrentHTTPConnections := Function.update s.mConcurrentHTTPConnections (getSHA2_256Vec ip)
          (if left = 0 then none else some left) }
  | none => s

def decrementWebSocketConnection (s : CNetworkManager) (ip : Bytes) : CNetworkManager :=
  s.decrementHTTPConnection getSHA2_256Vec ip

/-! ### Windows -/

/-- A window whose time is over starts anew, with all its counters; the difference of the times wraps around where the
clock went back. -/
def renewed (conns : ConnectionsPerWindow) (currentTime : UInt64) : ConnectionsPerWindow :=
  if currentTime - conns.lastReset > settings.firewallTimeWindowSize then
    { conns with generalCounter := 0, httpCounter := 0, apiCounter := 0, lastReset := currentTime,
                 lastSeen := currentTime }
  else { conns with lastSeen := currentTime }

/-- The count of the window, with the connection that is checked. -/
def countConnection (s : CNetworkManager) (currentTime : UInt64) (ip : Bytes) (counter : ConnectionCounter)
    (incrementCounters : Bool) : UInt64 × CNetworkManager :=
  let ipHash := getSHA2_256Vec ip
  match s.mConnectionsPerWindowIPs ipHash with
  | some conns =>
      let conns := renewed settings conns currentTime
      let conns := if incrementCounters then conns.increment counter else conns
      (conns.count counter, s.setConnections ipHash conns)
  | none =>
      if incrementCounters then (1, s.setConnections ipHash (.first counter currentTime ip)) else (0, s)

/-- An address that is not known yet is entered once a conversation with it is registered. -/
def registerConversation (s : CNetworkManager) (time : UInt64) (ip : Bytes) : CNetworkManager :=
  if validateIPv4 ip = false then s
  else
    let ipHash := getSHA2_256Vec ip
    match s.mConnectionsPerWindowIPs ipHash with
    | some _ => s
    | none => s.setConnections ipHash ⟨1, time, 1, ip, time, 0⟩

end CNetworkManager

def threshold : ConnectionCounter → UInt64
  | .api => settings.maxHttpAPIReqInTimeWindow
  | .http => settings.maxHttpReqInTimeWindow
  | .general => settings.maxConnPerTimeWindow

def banDurationSeconds : ConnectionCounter → UInt64
  | .api => settings.banHTTPAPIPeersForSecs
  | _ => settings.banDTIPeersForSecs

namespace CNetworkManager

/-- The last checks, of the rate and of the time that a node was connected for. -/
def checkRate (s : CNetworkManager) (currentTime : UInt64) (ip : Bytes) (transport : eTransportType)
    (incrementCounters : Bool) (surroundings : Surroundings) : eIncomingConnectionResult × CNetworkManager :=
  let counted := s.countConnection settings getSHA2_256Vec currentTime ip transport.counter incrementCounters
  let connsInTimeWindow := counted.1
  if connsInTimeWindow > 0 ∧ connsInTimeWindow > threshold settings transport.counter then
    (.DOS, { counted.2 with
      mBannedIPs := Function.update counted.2.mBannedIPs (getSHA2_256Vec ip)
        (some (currentTime + banDurationSeconds settings transport.counter, 0)) })
  else if transport.isDataExchange ∧ surroundings.connectionDuration > 30 * 60 ∧ ¬surroundings.conversations < 3 then
    (.limitReached, counted.2)
  else (.allowed, counted.2)

/-- The checks of an address that is not exempt. -/
def checkConnection (s : CNetworkManager) (currentTime : UInt64) (ip : Bytes) (autoBan : Bool)
    (transport : eTransportType) (incrementCounters : Bool) (surroundings : Surroundings) : eIncomingConnectionResult × CNetworkManager :=
  if surroundings.hasResourcesForConnection = false then (.insufficientResources, s)
  else if transport.isHttp ∧ surroundings.getUIDebugModeActive ∧
      surroundings.getUIDebuggingIPv4 ≠ ip ∧ surroundings.isPrivateIpAddress = false then
    (.limitReached, s)
  else if transport.isDataExchange ∧ surroundings.getMaintainConnectivityOnlyWithBootstrapNodes ∧
      surroundings.getIsBootstrapNode = false then
    (.onlyBootstrapNodesAllowed, s)
  else if s.isBanned currentTime (getSHA2_256Vec ip) then (.DOS, s)
  else if (transport.isHTTPNewConnection ∨ transport.isWebSocket) ∧
      s.getHTTPConnectionsCount getSHA2_256Vec ip ≥ settings.maxHTTPConnectionsPerIP then
    (.DOS, if autoBan then
      (s.banIP settings getSHA2_256Vec validateIPv4 currentTime ip 1800 true surroundings).2 else s)
  else s.checkRate settings getSHA2_256Vec currentTime ip transport incrementCounters surroundings

def isConnectionAllowed (s : CNetworkManager) (currentTime : UInt64) (ip : Bytes) (autoBan : Bool)
    (transport : eTransportType) (incrementCounters : Bool) (surroundings : Surroundings) :
    eIncomingConnectionResult × CNetworkManager :=
  if ip = [] then (.insufficientResources, s)
  else if surroundings.isIPAddressLocal then (.allowed, s)
  else if surroundings.isPrivateIpAddress then (.allowed, (s.whitelist ip surroundings.setWhitelistedIPs).2)
  else if s.getIsWhitelisted ip then (.allowed, s)
  else s.checkConnection settings getSHA2_256Vec validateIPv4 currentTime ip autoBan transport incrementCounters
    surroundings

end CNetworkManager

end Model

end Firewall

end Gridnet
