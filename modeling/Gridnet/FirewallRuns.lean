import Gridnet.Firewall
import Gridnet.FixedWindow

/-! Runs of the firewall, in which any addresses connect at any times while bans, pardons and lists change. -/

namespace Gridnet

namespace Firewall

inductive Op where
  | isConnectionAllowed (ip : Bytes) (autoBan : Bool) (transport : eTransportType) (incrementCounters : Bool)
      (surroundings : Surroundings)
  | banIP (ip : Bytes) (time : UInt64) (useKernelMode : Bool) (surroundings : Surroundings)
  | pardonPeer (address : Bytes)
  | whitelist (address : Bytes) (setWhitelistedIPs : Bool)
  | unWhitelist (address : Bytes) (setWhitelistedIPs : Bool)
  | clearDataSet
  | incrementHTTPConnection (ip : Bytes)
  | incrementWebSocketConnection (ip : Bytes)
  | decrementHTTPConnection (ip : Bytes)
  | decrementWebSocketConnection (ip : Bytes)
  | registerConversation (ip : Bytes)

inductive Answer where
  | connection (result : eIncomingConnectionResult)
  | done (success : Bool)
  deriving DecidableEq

section Model

variable (settings : CGlobalSecSettings) (getSHA2_256Vec : Bytes → Bytes) (validateIPv4 : Bytes → Bool)

/-- One call at some time. -/
def step (s : CNetworkManager) (call : UInt64 × Op) : Answer × CNetworkManager :=
  match call.2 with
  | .isConnectionAllowed ip autoBan transport incrementCounters surroundings =>
      let r := s.isConnectionAllowed settings getSHA2_256Vec validateIPv4 call.1 ip autoBan transport
        incrementCounters surroundings
      (.connection r.1, r.2)
  | .banIP ip time useKernelMode surroundings =>
      let r := s.banIP settings getSHA2_256Vec validateIPv4 call.1 ip time useKernelMode surroundings
      (.done r.1, r.2)
  | .pardonPeer address =>
      let r := s.pardonPeer getSHA2_256Vec address
      (.done r.1, r.2)
  | .whitelist address setWhitelistedIPs =>
      let r := s.whitelist address setWhitelistedIPs
      (.done r.1, r.2)
  | .unWhitelist address setWhitelistedIPs =>
      let r := s.unWhitelist address setWhitelistedIPs
      (.done r.1, r.2)
  | .clearDataSet => (.done true, s.clearDataSet)
  | .incrementHTTPConnection ip =>
      let r := s.incrementHTTPConnection settings getSHA2_256Vec ip
      (.done r.1, r.2)
  | .incrementWebSocketConnection ip =>
      let r := s.incrementWebSocketConnection settings getSHA2_256Vec ip
      (.done r.1, r.2)
  | .decrementHTTPConnection ip => (.done true, s.decrementHTTPConnection getSHA2_256Vec ip)
  | .decrementWebSocketConnection ip => (.done true, s.decrementWebSocketConnection getSHA2_256Vec ip)
  | .registerConversation ip => (.done true, s.registerConversation getSHA2_256Vec validateIPv4 call.1 ip)

end Model

section Rate

variable {settings : CGlobalSecSettings} {getSHA2_256Vec : Bytes → Bytes} {validateIPv4 : Bytes → Bool}

open CNetworkManager

/-! ### What calls change -/

@[simp] theorem mConnectionsPerWindowIPs_clearHTTPConnectionCounter (s : CNetworkManager) (ip : Bytes) :
    (s.clearHTTPConnectionCounter getSHA2_256Vec validateIPv4 ip).mConnectionsPerWindowIPs =
      s.mConnectionsPerWindowIPs := by
  rw [clearHTTPConnectionCounter]
  split_ifs <;> rfl

@[simp] theorem mConnectionsPerWindowIPs_banIP (s : CNetworkManager) (now : UInt64) (ip : Bytes) (time : UInt64)
    (useKernelMode : Bool) (surroundings : Surroundings) :
    (s.banIP settings getSHA2_256Vec validateIPv4 now ip time useKernelMode surroundings).2.mConnectionsPerWindowIPs =
      s.mConnectionsPerWindowIPs := by
  rw [banIP]
  split_ifs <;> simp

@[simp] theorem mConnectionsPerWindowIPs_whitelist (s : CNetworkManager) (address : Bytes) (saved : Bool) :
    (s.whitelist address saved).2.mConnectionsPerWindowIPs = s.mConnectionsPerWindowIPs := by
  rw [whitelist]
  split_ifs <;> rfl

@[simp] theorem mConnectionsPerWindowIPs_unWhitelist (s : CNetworkManager) (address : Bytes) (saved : Bool) :
    (s.unWhitelist address saved).2.mConnectionsPerWindowIPs = s.mConnectionsPerWindowIPs := by
  rw [unWhitelist]
  split_ifs <;> rfl

@[simp] theorem mConnectionsPerWindowIPs_incrementHTTPConnection (s : CNetworkManager) (ip : Bytes) :
    (s.incrementHTTPConnection settings getSHA2_256Vec ip).2.mConnectionsPerWindowIPs =
      s.mConnectionsPerWindowIPs := by
  rw [incrementHTTPConnection]
  split_ifs <;> rfl

@[simp] theorem mConnectionsPerWindowIPs_decrementHTTPConnection (s : CNetworkManager) (ip : Bytes) :
    (s.decrementHTTPConnection getSHA2_256Vec ip).mConnectionsPerWindowIPs = s.mConnectionsPerWindowIPs := by
  rw [decrementHTTPConnection]
  cases s.mConcurrentHTTPConnections (getSHA2_256Vec ip) <;> rfl

theorem DOS_ne_allowed : eIncomingConnectionResult.DOS ≠ .allowed := by decide

theorem limitReached_ne_allowed : eIncomingConnectionResult.limitReached ≠ .allowed := by decide

theorem insufficientResources_ne_allowed : eIncomingConnectionResult.insufficientResources ≠ .allowed := by decide

theorem onlyBootstrapNodesAllowed_ne_allowed : eIncomingConnectionResult.onlyBootstrapNodesAllowed ≠ .allowed := by
  decide

/-- What a check comes to that counts the connection: it is allowed within the limit only. -/
structure Checked (settings : CGlobalSecSettings) (getSHA2_256Vec : Bytes → Bytes) (s : CNetworkManager) (now : UInt64)
    (ip : Bytes) (transport : eTransportType) (incrementCounters : Bool)
    (r : eIncomingConnectionResult × CNetworkManager) : Prop where
  windows : r.2.mConnectionsPerWindowIPs =
    (s.countConnection settings getSHA2_256Vec now ip transport.counter incrementCounters).2.mConnectionsPerWindowIPs
  limit : r.1 = .allowed →
    (s.countConnection settings getSHA2_256Vec now ip transport.counter incrementCounters).1 ≤
      threshold settings transport.counter

theorem checkRate_checked (s : CNetworkManager) (now : UInt64) (ip : Bytes) (transport : eTransportType)
    (incrementCounters : Bool) (surroundings : Surroundings) :
    Checked settings getSHA2_256Vec s now ip transport incrementCounters
      (s.checkRate settings getSHA2_256Vec now ip transport incrementCounters surroundings) := by
  rw [checkRate]
  dsimp only
  split_ifs with hover
  · exact ⟨rfl, fun hallowed => absurd hallowed DOS_ne_allowed⟩
  · exact ⟨rfl, fun hallowed => absurd hallowed limitReached_ne_allowed⟩
  · refine ⟨rfl, fun _ => ?_⟩
    by_contra hmore
    have hlt := UInt64.not_le.mp hmore
    exact hover ⟨UInt64.lt_of_le_of_lt UInt64.zero_le hlt, hlt⟩

theorem checkConnection_cases (s : CNetworkManager) (now : UInt64) (ip : Bytes) (autoBan : Bool)
    (transport : eTransportType) (incrementCounters : Bool) (surroundings : Surroundings) :
    let r := s.checkConnection settings getSHA2_256Vec validateIPv4 now ip autoBan transport incrementCounters
      surroundings
    (r.2.mConnectionsPerWindowIPs = s.mConnectionsPerWindowIPs ∧ r.1 ≠ .allowed) ∨
      (s.isBanned now (getSHA2_256Vec ip) = false ∧
        Checked settings getSHA2_256Vec s now ip transport incrementCounters r) := by
  dsimp only
  rw [checkConnection]
  split_ifs with hresources hdebug hbootstrap hbanned hopen hautoBan
  · exact .inl ⟨rfl, insufficientResources_ne_allowed⟩
  · exact .inl ⟨rfl, limitReached_ne_allowed⟩
  · exact .inl ⟨rfl, onlyBootstrapNodesAllowed_ne_allowed⟩
  · exact .inl ⟨rfl, DOS_ne_allowed⟩
  · exact .inl ⟨mConnectionsPerWindowIPs_banIP s now ip 1800 true surroundings, DOS_ne_allowed⟩
  · exact .inl ⟨rfl, DOS_ne_allowed⟩
  · exact .inr ⟨Bool.eq_false_iff.mpr hbanned, checkRate_checked s now ip transport incrementCounters surroundings⟩

/-- An address that no check lets pass unseen. -/
structure Ordinary (s : CNetworkManager) (ip : Bytes) (surroundings : Surroundings) : Prop where
  remote : surroundings.isIPAddressLocal = false
  notPrivate : surroundings.isPrivateIpAddress = false
  unlisted : ip ∉ s.mWhitelist

theorem isConnectionAllowed_cases (s : CNetworkManager) (now : UInt64) (ip : Bytes) (autoBan : Bool)
    (transport : eTransportType) (incrementCounters : Bool) (surroundings : Surroundings) :
    let r := s.isConnectionAllowed settings getSHA2_256Vec validateIPv4 now ip autoBan transport incrementCounters
      surroundings
    (r.2.mConnectionsPerWindowIPs = s.mConnectionsPerWindowIPs ∧ (Ordinary s ip surroundings → r.1 ≠ .allowed)) ∨
      (s.isBanned now (getSHA2_256Vec ip) = false ∧
        Checked settings getSHA2_256Vec s now ip transport incrementCounters r) := by
  dsimp only
  rw [isConnectionAllowed]
  split_ifs with hempty hlocal hprivate hlisted
  · exact .inl ⟨rfl, fun _ => insufficientResources_ne_allowed⟩
  · exact .inl ⟨rfl, fun hordinary => absurd hlocal (Bool.eq_false_iff.mp hordinary.remote)⟩
  · exact .inl ⟨mConnectionsPerWindowIPs_whitelist s ip surroundings.setWhitelistedIPs,
      fun hordinary => absurd hprivate (Bool.eq_false_iff.mp hordinary.notPrivate)⟩
  · exact .inl ⟨rfl, fun hordinary => absurd (of_decide_eq_true hlisted) hordinary.unlisted⟩
  · rcases @checkConnection_cases settings getSHA2_256Vec validateIPv4 s now ip autoBan transport incrementCounters
      surroundings with hrefused | hchecked
    · exact .inl ⟨hrefused.1, fun _ => hrefused.2⟩
    · exact .inr hchecked

/-! ### Windows -/

variable (getSHA2_256Vec) in
/-- The window of an address, for one of its counters. -/
def window (ip : Bytes) (counter : ConnectionCounter) (s : CNetworkManager) : Option (ℕ × ℕ) :=
  (s.mConnectionsPerWindowIPs (getSHA2_256Vec ip)).map fun conns =>
    (conns.lastReset.toNat, (conns.count counter).toNat)

variable {ip : Bytes} {counter : ConnectionCounter}

theorem window_congr {s s' : CNetworkManager} (hsame : s.mConnectionsPerWindowIPs = s'.mConnectionsPerWindowIPs) :
    window getSHA2_256Vec ip counter s = window getSHA2_256Vec ip counter s' := by
  rw [window, window, hsame]

theorem window_setConnections (s : CNetworkManager) (conns : ConnectionsPerWindow) :
    window getSHA2_256Vec ip counter (s.setConnections (getSHA2_256Vec ip) conns) =
      some (conns.lastReset.toNat, (conns.count counter).toNat) := by
  simp only [window, setConnections, Function.update_self, Option.map_some]

theorem window_setConnections_of_ne (s : CNetworkManager) {ipHash : Bytes} (hne : getSHA2_256Vec ip ≠ ipHash)
    (conns : ConnectionsPerWindow) :
    window getSHA2_256Vec ip counter (s.setConnections ipHash conns) = window getSHA2_256Vec ip counter s := by
  simp only [window, setConnections, Function.update_of_ne hne]

theorem not_expired {conns : ConnectionsPerWindow} {now : UInt64} (hclock : conns.lastReset ≤ now)
    (hover : now - conns.lastReset > settings.firewallTimeWindowSize) :
    conns.lastReset.toNat + settings.firewallTimeWindowSize.toNat < now.toNat := by
  have hlater := UInt64.le_iff_toNat_le.mp hclock
  have hlong := UInt64.lt_iff_toNat_lt.mp hover
  rw [UInt64.toNat_sub_of_le _ _ hclock] at hlong
  omega

theorem toNat_add_one {n : UInt64} (hn : n.toNat + 1 < 2 ^ 64) : (n + 1).toNat = n.toNat + 1 := by
  rw [UInt64.toNat_add, UInt64.toNat_one, Nat.mod_eq_of_lt hn]

theorem count_increment {conns : ConnectionsPerWindow} {counter : ConnectionCounter} (counter' : ConnectionCounter)
    (hroom : (conns.count counter).toNat + 1 < 2 ^ 64) :
    ((conns.increment counter').count counter).toNat =
      (conns.count counter).toNat + (decide (counter' = counter)).toNat := by
  by_cases hsame : counter' = counter
  · rw [decide_eq_true hsame, hsame, Bool.toNat_true, ← toNat_add_one hroom]
    cases counter <;> rfl
  · rw [decide_eq_false hsame, Bool.toNat_false, Nat.add_zero]
    cases counter <;> cases counter' <;> first | rfl | exact absurd rfl hsame

theorem lastReset_increment (conns : ConnectionsPerWindow) (counter : ConnectionCounter) :
    (conns.increment counter).lastReset = conns.lastReset := by
  cases counter <;> rfl

/-- The entry of an address, with the connection that is checked. -/
def counted (settings : CGlobalSecSettings) (conns : ConnectionsPerWindow) (now : UInt64) (counter : ConnectionCounter)
    (incrementCounters : Bool) : ConnectionsPerWindow :=
  if incrementCounters then (renewed settings conns now).increment counter else renewed settings conns now

theorem count_counted {conns : ConnectionsPerWindow} {now : UInt64} {counter : ConnectionCounter}
    (counter' : ConnectionCounter) (incrementCounters : Bool)
    (hroom : ((renewed settings conns now).count counter).toNat + 1 < 2 ^ 64) :
    ((counted settings conns now counter' incrementCounters).count counter).toNat =
      ((renewed settings conns now).count counter).toNat +
        (incrementCounters && decide (counter' = counter)).toNat := by
  cases incrementCounters with
  | false => rfl
  | true => exact count_increment counter' hroom

theorem lastReset_counted (conns : ConnectionsPerWindow) (now : UInt64) (counter : ConnectionCounter)
    (incrementCounters : Bool) :
    (counted settings conns now counter incrementCounters).lastReset = (renewed settings conns now).lastReset := by
  cases incrementCounters with
  | false => rfl
  | true => exact lastReset_increment _ _

theorem counted_counted (conns : ConnectionsPerWindow) {now : UInt64} (hclock : conns.lastReset ≤ now)
    (counter counter' : ConnectionCounter) (incrementCounters : Bool) {allows : Bool} {limit : UInt64}
    (hroom : (conns.count counter).toNat + 1 < 2 ^ 64)
    (hallows : allows = true → counter' = counter ∧ incrementCounters = true ∧
      (counted settings conns now counter' incrementCounters).count counter' ≤ limit) :
    FixedWindow.Counted settings.firewallTimeWindowSize.toNat limit.toNat now.toNat
      (some (conns.lastReset.toNat, (conns.count counter).toNat))
      (some ((counted settings conns now counter' incrementCounters).lastReset.toNat,
        ((counted settings conns now counter' incrementCounters).count counter).toNat)) allows := by
  have hlimit : allows = true →
      ((counted settings conns now counter' incrementCounters).count counter).toNat ≤ limit.toNat := by
    intro hallowed
    obtain ⟨rfl, -, hle⟩ := hallows hallowed
    exact UInt64.le_iff_toNat_le.mp hle
  have hcount : allows.toNat ≤ (incrementCounters && decide (counter' = counter)).toNat := by
    cases allows with
    | false => exact Nat.zero_le _
    | true =>
        obtain ⟨hcounter, hincrement, -⟩ := hallows rfl
        rw [hincrement, decide_eq_true hcounter]
        exact Nat.le_refl _
  rw [lastReset_counted]
  by_cases hover : now - conns.lastReset > settings.firewallTimeWindowSize
  · have hrenewed : (renewed settings conns now).lastReset = now := by rw [renewed, if_pos hover]
    have hzero : ((renewed settings conns now).count counter).toNat = 0 := by
      rw [renewed, if_pos hover]
      cases counter <;> rfl
    have hsum := @count_counted settings conns now counter counter' incrementCounters (by rw [hzero]; decide)
    rw [hzero, Nat.zero_add] at hsum
    rw [hrenewed]
    refine .renewed (fun window hwindow => ?_) (hsum ▸ hcount) hlimit (hsum ▸ Bool.toNat_le _)
    rw [← Option.some.inj hwindow]
    exact not_expired hclock hover
  · have hsame : renewed settings conns now = { conns with lastSeen := now } := by rw [renewed, if_neg hover]
    have hsum := @count_counted settings conns now counter counter' incrementCounters (hsame ▸ hroom)
    rw [hsame] at hsum ⊢
    refine .kept ?_ hlimit ?_
    · rw [hsum]
      exact Nat.add_le_add_left hcount _
    · rw [hsum]
      exact Nat.add_le_add_left (Bool.toNat_le _) _

/-- What counting a connection does to the window of some address. -/
theorem countConnection_counted (s : CNetworkManager) (now : UInt64) (ip ip' : Bytes) (counter counter' : ConnectionCounter)
    (incrementCounters allows : Bool) {limit : UInt64}
    (hclock : ∀ conns ∈ s.mConnectionsPerWindowIPs (getSHA2_256Vec ip), conns.lastReset ≤ now)
    (hroom : FixedWindow.count (window getSHA2_256Vec ip counter s) + 1 < 2 ^ 64)
    (hallows : allows = true → ip' = ip ∧ counter' = counter ∧ incrementCounters = true ∧
      (s.countConnection settings getSHA2_256Vec now ip' counter' incrementCounters).1 ≤ limit) :
    FixedWindow.Counted settings.firewallTimeWindowSize.toNat limit.toNat now.toNat
      (window getSHA2_256Vec ip counter s) (window getSHA2_256Vec ip counter
        (s.countConnection settings getSHA2_256Vec now ip' counter' incrementCounters).2) allows := by
  by_cases hkey : getSHA2_256Vec ip' = getSHA2_256Vec ip
  · cases hentry : s.mConnectionsPerWindowIPs (getSHA2_256Vec ip) with
    | some conns =>
        have hcounting : s.countConnection settings getSHA2_256Vec now ip' counter' incrementCounters =
            ((counted settings conns now counter' incrementCounters).count counter',
              s.setConnections (getSHA2_256Vec ip) (counted settings conns now counter' incrementCounters)) := by
          rw [countConnection]
          dsimp only
          rw [hkey, hentry]
          rfl
        rw [hcounting] at hallows ⊢
        rw [window, hentry, Option.map_some] at hroom
        rw [window_setConnections, window, hentry, Option.map_some]
        exact counted_counted conns (hclock conns hentry) counter counter' incrementCounters hroom
          fun hallowed => (hallows hallowed).2
    | none =>
        cases incrementCounters with
        | false =>
            have hnot : allows = false := by
              refine Bool.eq_false_iff.mpr fun hallowed => ?_
              exact absurd (hallows hallowed).2.2.1 Bool.false_ne_true
            have hcounting : (s.countConnection settings getSHA2_256Vec now ip' counter' false).2 = s := by
              rw [countConnection]
              dsimp only
              rw [hkey, hentry]
              rfl
            rw [hcounting, hnot]
            exact .idle _
        | true =>
            have hcounting : s.countConnection settings getSHA2_256Vec now ip' counter' true =
                (1, s.setConnections (getSHA2_256Vec ip) (.first counter' now ip')) := by
              rw [countConnection]
              dsimp only
              rw [hkey, hentry]
              rfl
            rw [hcounting] at hallows ⊢
            have hfirst : (ConnectionsPerWindow.count (.first counter' now ip') counter).toNat =
                (decide (counter' = counter)).toNat := by
              cases counter <;> cases counter' <;> rfl
            have hreset : (ConnectionsPerWindow.first counter' now ip').lastReset = now := lastReset_increment _ _
            rw [window_setConnections, window, hentry, Option.map_none, hfirst, hreset]
            refine .renewed (fun window hwindow => ?_) ?_ ?_ (Bool.toNat_le _)
            · exact absurd hwindow (Option.not_mem_none window)
            · cases allows with
              | false => exact Nat.zero_le _
              | true =>
                  rw [decide_eq_true (hallows rfl).2.1]
            · intro hallowed
              exact (Bool.toNat_le _).trans (UInt64.le_iff_toNat_le.mp (hallows hallowed).2.2.2)
  · have hnot : allows = false := by
      refine Bool.eq_false_iff.mpr fun hallowed => hkey ?_
      rw [(hallows hallowed).1]
    have hsame : window getSHA2_256Vec ip counter
        (s.countConnection settings getSHA2_256Vec now ip' counter' incrementCounters).2 =
          window getSHA2_256Vec ip counter s := by
      rw [countConnection]
      dsimp only
      cases s.mConnectionsPerWindowIPs (getSHA2_256Vec ip') with
      | some conns => exact window_setConnections_of_ne s (Ne.symm hkey) _
      | none =>
          split_ifs
          · exact window_setConnections_of_ne s (Ne.symm hkey) _
          · rfl
    rw [hsame, hnot]
    exact .idle _

/-! ### The rate -/

variable (getSHA2_256Vec) in
/-- Calls that do not exempt an address or forgive what was counted. -/
def Unforgiving (ip : Bytes) : Op → Prop
  | .isConnectionAllowed ip' _ _ _ surroundings =>
      ip' = ip → surroundings.isIPAddressLocal = false ∧ surroundings.isPrivateIpAddress = false
  | .pardonPeer address => getSHA2_256Vec address ≠ getSHA2_256Vec ip
  | .whitelist address _ => address ≠ ip
  | .clearDataSet => False
  | _ => True

/-- Connections from an address that are counted and allowed. -/
def admits (ip : Bytes) (counter : ConnectionCounter) (call : UInt64 × Op) (answer : Answer) : Bool :=
  match call.2 with
  | .isConnectionAllowed ip' _ transport incrementCounters _ =>
      decide (ip' = ip ∧ transport.counter = counter ∧ incrementCounters = true ∧ answer = .connection .allowed)
  | _ => false

theorem mem_mWhitelist_whitelist {s : CNetworkManager} {address : Bytes} {saved : Bool}
    (hmem : ip ∈ (s.whitelist address saved).2.mWhitelist) : ip ∈ s.mWhitelist ∨ ip = address := by
  rw [whitelist] at hmem
  split_ifs at hmem
  · exact .inl hmem
  · exact (List.mem_append.mp hmem).imp_right List.mem_singleton.mp

@[simp] theorem mWhitelist_clearHTTPConnectionCounter (s : CNetworkManager) (ip : Bytes) :
    (s.clearHTTPConnectionCounter getSHA2_256Vec validateIPv4 ip).mWhitelist = s.mWhitelist := by
  rw [clearHTTPConnectionCounter]
  split_ifs <;> rfl

theorem mWhitelist_banIP (s : CNetworkManager) (now : UInt64) (ip : Bytes) (time : UInt64) (useKernelMode : Bool)
    (surroundings : Surroundings) :
    (s.banIP settings getSHA2_256Vec validateIPv4 now ip time useKernelMode surroundings).2.mWhitelist =
      s.mWhitelist := by
  rw [banIP]
  split_ifs <;> simp

theorem mWhitelist_countConnection (s : CNetworkManager) (now : UInt64) (ip : Bytes) (counter : ConnectionCounter)
    (incrementCounters : Bool) :
    (s.countConnection settings getSHA2_256Vec now ip counter incrementCounters).2.mWhitelist = s.mWhitelist := by
  rw [countConnection]
  dsimp only
  cases s.mConnectionsPerWindowIPs (getSHA2_256Vec ip) with
  | some conns => rfl
  | none => split_ifs <;> rfl

theorem mWhitelist_checkConnection (s : CNetworkManager) (now : UInt64) (ip : Bytes) (autoBan : Bool)
    (transport : eTransportType) (incrementCounters : Bool) (surroundings : Surroundings) :
    (s.checkConnection settings getSHA2_256Vec validateIPv4 now ip autoBan transport incrementCounters
      surroundings).2.mWhitelist = s.mWhitelist := by
  have hcounted := @mWhitelist_countConnection settings getSHA2_256Vec s now ip transport.counter incrementCounters
  rw [checkConnection]
  split_ifs
  · rfl
  · rfl
  · rfl
  · rfl
  · exact mWhitelist_banIP s now ip 1800 true surroundings
  · rfl
  · rw [checkRate]
    dsimp only
    split_ifs <;> exact hcounted

/-- Only the address that is checked can be entered in the list, and only where it is private. -/
theorem mem_mWhitelist_isConnectionAllowed {s : CNetworkManager} {now : UInt64} {ip' : Bytes} {autoBan : Bool}
    {transport : eTransportType} {incrementCounters : Bool} {surroundings : Surroundings}
    (hmem : ip ∈ (s.isConnectionAllowed settings getSHA2_256Vec validateIPv4 now ip' autoBan transport
      incrementCounters surroundings).2.mWhitelist) :
    ip ∈ s.mWhitelist ∨ ip = ip' ∧ surroundings.isPrivateIpAddress = true := by
  rw [isConnectionAllowed] at hmem
  split_ifs at hmem with hempty hlocal hprivate hlisted
  · exact .inl hmem
  · exact .inl hmem
  · exact (mem_mWhitelist_whitelist hmem).imp_right fun heq => ⟨heq, hprivate⟩
  · exact .inl hmem
  · rw [mWhitelist_checkConnection] at hmem
    exact .inl hmem

theorem unlisted_step (s : CNetworkManager) (call : UInt64 × Op) (hcall : Unforgiving getSHA2_256Vec ip call.2)
    (hlisted : ip ∉ s.mWhitelist) : ip ∉ (step settings getSHA2_256Vec validateIPv4 s call).2.mWhitelist := by
  obtain ⟨now, op⟩ := call
  intro hmem
  cases op with
  | isConnectionAllowed ip' autoBan transport incrementCounters surroundings =>
      rcases mem_mWhitelist_isConnectionAllowed hmem with hmem | ⟨heq, hprivate⟩
      · exact hlisted hmem
      · exact Bool.eq_false_iff.mp (hcall heq.symm).2 hprivate
  | banIP ip' time useKernelMode surroundings =>
      exact hlisted (mWhitelist_banIP s now ip' time useKernelMode surroundings ▸ hmem)
  | pardonPeer address =>
      refine hlisted ?_
      dsimp only [step] at hmem
      rw [pardonPeer] at hmem
      dsimp only at hmem
      split_ifs at hmem
      · exact hmem
      · cases hentry : s.mConnectionsPerWindowIPs (getSHA2_256Vec address) <;> rw [hentry] at hmem <;> exact hmem
  | whitelist address saved =>
      exact (mem_mWhitelist_whitelist hmem).elim hlisted fun heq => hcall heq.symm
  | unWhitelist address saved =>
      refine hlisted ?_
      dsimp only [step] at hmem
      rw [unWhitelist] at hmem
      split_ifs at hmem
      · exact List.mem_of_mem_erase hmem
      · exact hmem
  | clearDataSet => exact hcall
  | incrementHTTPConnection ip' =>
      dsimp only [step] at hmem
      rw [incrementHTTPConnection] at hmem
      split_ifs at hmem <;> exact hlisted hmem
  | incrementWebSocketConnection ip' =>
      dsimp only [step] at hmem
      rw [incrementWebSocketConnection, incrementHTTPConnection] at hmem
      split_ifs at hmem <;> exact hlisted hmem
  | decrementHTTPConnection ip' =>
      dsimp only [step] at hmem
      rw [decrementHTTPConnection] at hmem
      cases hentry : s.mConcurrentHTTPConnections (getSHA2_256Vec ip') <;> rw [hentry] at hmem <;> exact hlisted hmem
  | decrementWebSocketConnection ip' =>
      dsimp only [step] at hmem
      rw [decrementWebSocketConnection, decrementHTTPConnection] at hmem
      cases hentry : s.mConcurrentHTTPConnections (getSHA2_256Vec ip') <;> rw [hentry] at hmem <;> exact hlisted hmem
  | registerConversation ip' =>
      dsimp only [step] at hmem
      rw [registerConversation] at hmem
      dsimp only at hmem
      split_ifs at hmem
      · exact hlisted hmem
      · cases hentry : s.mConnectionsPerWindowIPs (getSHA2_256Vec ip') <;> rw [hentry] at hmem <;> exact hlisted hmem

theorem step_counted (s : CNetworkManager) (call : UInt64 × Op) (hcall : Unforgiving getSHA2_256Vec ip call.2)
    (hlisted : ip ∉ s.mWhitelist)
    (hclock : ∀ conns ∈ s.mConnectionsPerWindowIPs (getSHA2_256Vec ip), conns.lastReset ≤ call.1)
    (hroom : FixedWindow.count (window getSHA2_256Vec ip counter s) + 1 < 2 ^ 64) :
    FixedWindow.Counted settings.firewallTimeWindowSize.toNat (threshold settings counter).toNat call.1.toNat
      (window getSHA2_256Vec ip counter s)
      (window getSHA2_256Vec ip counter (step settings getSHA2_256Vec validateIPv4 s call).2)
      (admits ip counter call (step settings getSHA2_256Vec validateIPv4 s call).1) := by
  have hidle (s' : CNetworkManager) (hsame : s'.mConnectionsPerWindowIPs = s.mConnectionsPerWindowIPs) :
      FixedWindow.Counted settings.firewallTimeWindowSize.toNat (threshold settings counter).toNat call.1.toNat
        (window getSHA2_256Vec ip counter s) (window getSHA2_256Vec ip counter s') false := by
    rw [window_congr hsame]
    exact .idle _
  obtain ⟨now, op⟩ := call
  cases op with
  | isConnectionAllowed ip' autoBan transport incrementCounters surroundings =>
      rcases @isConnectionAllowed_cases settings getSHA2_256Vec validateIPv4 s now ip' autoBan transport
        incrementCounters surroundings with ⟨hsame, hrefused⟩ | ⟨-, hchecked⟩
      · have hnot : admits ip counter (now, .isConnectionAllowed ip' autoBan transport incrementCounters surroundings)
            (step settings getSHA2_256Vec validateIPv4 s
              (now, .isConnectionAllowed ip' autoBan transport incrementCounters surroundings)).1 = false := by
          refine decide_eq_false fun hadmitted => ?_
          obtain ⟨heq, -, -, hallowed⟩ := hadmitted
          have hordinary : Ordinary s ip' surroundings := ⟨(hcall heq).1, (hcall heq).2, heq ▸ hlisted⟩
          exact hrefused hordinary (Answer.connection.inj hallowed)
        rw [hnot]
        exact hidle _ hsame
      · have hcounted := @countConnection_counted settings getSHA2_256Vec s now ip ip' counter transport.counter
          incrementCounters (admits ip counter
            (now, .isConnectionAllowed ip' autoBan transport incrementCounters surroundings)
            (step settings getSHA2_256Vec validateIPv4 s
              (now, .isConnectionAllowed ip' autoBan transport incrementCounters surroundings)).1)
          (threshold settings counter) hclock hroom fun hadmitted => by
            obtain ⟨heq, hcounter, hincrement, hallowed⟩ := of_decide_eq_true hadmitted
            exact ⟨heq, hcounter, hincrement, hcounter ▸ hchecked.limit (Answer.connection.inj hallowed)⟩
        have hwindow : window getSHA2_256Vec ip counter (step settings getSHA2_256Vec validateIPv4 s
            (now, .isConnectionAllowed ip' autoBan transport incrementCounters surroundings)).2 =
              window getSHA2_256Vec ip counter (s.countConnection settings getSHA2_256Vec now ip' transport.counter
                incrementCounters).2 := window_congr hchecked.windows
        rw [hwindow]
        exact hcounted
  | banIP ip' time useKernelMode surroundings => exact hidle _ (mConnectionsPerWindowIPs_banIP _ _ _ _ _ _)
  | pardonPeer address =>
      dsimp only [step]
      rw [pardonPeer]
      dsimp only
      split_ifs with hempty
      · exact .idle _
      · cases s.mConnectionsPerWindowIPs (getSHA2_256Vec address) with
        | some conns =>
            have hsame := @window_setConnections_of_ne getSHA2_256Vec ip counter
              { s with mBannedIPs := Function.update s.mBannedIPs (getSHA2_256Vec address) none } _ (Ne.symm hcall)
              { conns with generalCounter := 0, httpCounter := 0 }
            dsimp only
            rw [hsame]
            exact .idle _
        | none => exact .idle _
  | whitelist address saved => exact hidle _ (mConnectionsPerWindowIPs_whitelist _ _ _)
  | unWhitelist address saved => exact hidle _ (mConnectionsPerWindowIPs_unWhitelist _ _ _)
  | clearDataSet => exact absurd hcall not_false
  | incrementHTTPConnection ip' => exact hidle _ (mConnectionsPerWindowIPs_incrementHTTPConnection _ _)
  | incrementWebSocketConnection ip' => exact hidle _ (mConnectionsPerWindowIPs_incrementHTTPConnection _ _)
  | decrementHTTPConnection ip' => exact hidle _ (mConnectionsPerWindowIPs_decrementHTTPConnection _ _)
  | decrementWebSocketConnection ip' => exact hidle _ (mConnectionsPerWindowIPs_decrementHTTPConnection _ _)
  | registerConversation ip' =>
      dsimp only [step]
      rw [registerConversation]
      dsimp only
      split_ifs with hinvalid
      · exact .idle _
      · by_cases hkey : getSHA2_256Vec ip = getSHA2_256Vec ip'
        · cases hentry : s.mConnectionsPerWindowIPs (getSHA2_256Vec ip') with
          | some conns => exact .idle _
          | none =>
              dsimp only
              rw [← hkey, window_setConnections]
              refine .renewed (fun window hwindow => ?_) (Nat.zero_le _)
                (fun hallowed => absurd hallowed Bool.false_ne_true) (by cases counter <;> simp [ConnectionsPerWindow.count])
              rw [Firewall.window, hkey, hentry] at hwindow
              exact absurd hwindow (Option.not_mem_none window)
        · cases s.mConnectionsPerWindowIPs (getSHA2_256Vec ip') with
          | some conns => exact .idle _
          | none =>
              dsimp only
              rw [window_setConnections_of_ne s hkey]
              exact .idle _

/-- A run that starts no later than its first call, with a clock that does not go back, counts all that it admits. -/
theorem counts_run (counter : ConnectionCounter) {s : CNetworkManager} {calls : List (UInt64 × Op)}
    (hclock : calls.Pairwise fun call later => call.1 ≤ later.1)
    (hstart : ∀ conns ∈ s.mConnectionsPerWindowIPs (getSHA2_256Vec ip), ∀ call ∈ calls, conns.lastReset ≤ call.1)
    (hroom : FixedWindow.count (window getSHA2_256Vec ip counter s) + calls.length < 2 ^ 64)
    (hcalls : ∀ call ∈ calls, Unforgiving getSHA2_256Vec ip call.2) (hlisted : ip ∉ s.mWhitelist) :
    FixedWindow.Counts (step settings getSHA2_256Vec validateIPv4) (fun call => call.1.toNat) (admits ip counter)
      (window getSHA2_256Vec ip counter) settings.firewallTimeWindowSize.toNat (threshold settings counter).toNat
      s calls := by
  induction calls generalizing s with
  | nil => trivial
  | cons call calls ih =>
      obtain ⟨hlater, hclock⟩ := List.pairwise_cons.mp hclock
      obtain ⟨hcall, hcalls⟩ := List.forall_mem_cons.mp hcalls
      rw [List.length_cons] at hroom
      have hcounted := @step_counted settings getSHA2_256Vec validateIPv4 ip counter s call hcall hlisted
        (fun conns hconns => hstart conns hconns call List.mem_cons_self) (by omega)
      have hone := hcounted.count_le
      refine ⟨hcounted, ih hclock ?_ (by omega) hcalls (unlisted_step s call hcall hlisted)⟩
      intro conns hconns later hmem
      have hwindow : (conns.lastReset.toNat, (conns.count counter).toNat) ∈
          window getSHA2_256Vec ip counter (step settings getSHA2_256Vec validateIPv4 s call).2 := by
        rw [window, hconns]
        rfl
      refine UInt64.le_iff_toNat_le.mpr (hcounted.start_le (fun before hbefore => ?_)
        (UInt64.le_iff_toNat_le.mp (hlater later hmem)) _ hwindow)
      rw [window] at hbefore
      obtain ⟨conns', hconns', rfl⟩ := Option.map_eq_some_iff.mp hbefore
      exact UInt64.le_iff_toNat_le.mp (hstart conns' hconns' later (List.mem_cons_of_mem call hmem))

/-- Of the connections of an address that are counted, at most twice the limit are allowed in any stretch of time as
long as the window, whatever else is going on, as long as the counter does not run over. -/
theorem admitted_le (ip : Bytes) (counter : ConnectionCounter) (s : CNetworkManager) (calls : List (UInt64 × Op))
    (hclock : calls.Pairwise fun call later => call.1 ≤ later.1)
    (hstart : ∀ conns ∈ s.mConnectionsPerWindowIPs (getSHA2_256Vec ip), ∀ call ∈ calls, conns.lastReset ≤ call.1)
    (hroom : FixedWindow.count (window getSHA2_256Vec ip counter s) + calls.length < 2 ^ 64)
    (hcalls : ∀ call ∈ calls, Unforgiving getSHA2_256Vec ip call.2) (hlisted : ip ∉ s.mWhitelist) (t : ℕ) :
    Machine.total (step settings getSHA2_256Vec validateIPv4)
      (FixedWindow.within (fun call => call.1.toNat) (admits ip counter) settings.firewallTimeWindowSize.toNat t)
      s calls ≤ 2 * (threshold settings counter).toNat :=
  FixedWindow.total_le (hclock.imp UInt64.le_iff_toNat_le.mp) (counts_run counter hclock hstart hroom hcalls hlisted) t

/-- Settings with a limit of one connection in ten seconds. -/
def strict : CGlobalSecSettings := ⟨0, 10, 1800, 1800, 1, 1, 1⟩

/-- An ordinary address, and nothing else in the way. -/
def plain : Surroundings := ⟨false, false, true, true, false, [], false, false, 0, 0, none⟩

theorem admitted_twice : Machine.total (step strict id fun _ => true)
    (FixedWindow.within (fun call => call.1.toNat) (admits [8] .general) 10 0) initial
      [(0, .isConnectionAllowed [8] true .QUIC true plain), (11, .isConnectionAllowed [8] true .UDT true plain)] ≤
        2 * 1 := by
  refine @admitted_le strict id (fun _ => true) [8] .general initial _ ?_ ?_ (by decide) ?_ List.not_mem_nil 0
  · exact List.pairwise_pair.mpr (by decide)
  · exact fun conns hconns => absurd hconns (Option.not_mem_none conns)
  · intro call hcall
    rcases List.mem_pair.mp hcall with rfl | rfl <;> exact fun _ => ⟨rfl, rfl⟩

/-! ### Bans -/

variable (getSHA2_256Vec) in
/-- Calls that leave a ban of an address as it is. -/
def LeavesBan (ip : Bytes) : Op → Prop
  | .isConnectionAllowed ip' _ _ _ surroundings =>
      ip' = ip → surroundings.isIPAddressLocal = false ∧ surroundings.isPrivateIpAddress = false
  | .banIP ip' _ _ _ => getSHA2_256Vec ip' ≠ getSHA2_256Vec ip
  | .pardonPeer address => getSHA2_256Vec address ≠ getSHA2_256Vec ip
  | .whitelist address _ => address ≠ ip
  | .clearDataSet => False
  | _ => True

variable {till told : UInt64}

theorem isBanned_of_lt {s : CNetworkManager} {now : UInt64} (hban : s.mBannedIPs (getSHA2_256Vec ip) = some (till, told))
    (hnow : now < till) : s.isBanned now (getSHA2_256Vec ip) = true := by
  rw [isBanned, hban]
  have hpos : 0 < till := UInt64.lt_of_le_of_lt UInt64.zero_le hnow
  exact decide_eq_true ⟨UInt64.pos_iff_ne_zero.mp hpos, hnow⟩

@[simp] theorem mBannedIPs_clearHTTPConnectionCounter (s : CNetworkManager) (ip : Bytes) :
    (s.clearHTTPConnectionCounter getSHA2_256Vec validateIPv4 ip).mBannedIPs = s.mBannedIPs := by
  rw [clearHTTPConnectionCounter]
  split_ifs <;> rfl

theorem mBannedIPs_banIP_of_ne {s : CNetworkManager} {now : UInt64} {ip' : Bytes} {time : UInt64} {useKernelMode : Bool}
    {surroundings : Surroundings} (hne : getSHA2_256Vec ip' ≠ getSHA2_256Vec ip) :
    (s.banIP settings getSHA2_256Vec validateIPv4 now ip' time useKernelMode surroundings).2.mBannedIPs
      (getSHA2_256Vec ip) = s.mBannedIPs (getSHA2_256Vec ip) := by
  rw [banIP]
  split_ifs <;> simp [Function.update_of_ne (Ne.symm hne)]

theorem mBannedIPs_whitelist (s : CNetworkManager) (address : Bytes) (saved : Bool) :
    (s.whitelist address saved).2.mBannedIPs = s.mBannedIPs := by
  rw [whitelist]
  split_ifs <;> rfl

theorem mBannedIPs_countConnection (s : CNetworkManager) (now : UInt64) (ip : Bytes) (counter : ConnectionCounter)
    (incrementCounters : Bool) :
    (s.countConnection settings getSHA2_256Vec now ip counter incrementCounters).2.mBannedIPs = s.mBannedIPs := by
  rw [countConnection]
  dsimp only
  cases s.mConnectionsPerWindowIPs (getSHA2_256Vec ip) with
  | some conns => rfl
  | none => split_ifs <;> rfl

theorem mBannedIPs_checkConnection {s : CNetworkManager} {now : UInt64} (ip' : Bytes) (autoBan : Bool)
    (transport : eTransportType) (incrementCounters : Bool) (surroundings : Surroundings)
    (hban : s.mBannedIPs (getSHA2_256Vec ip) = some (till, told)) (hnow : now < till) :
    (s.checkConnection settings getSHA2_256Vec validateIPv4 now ip' autoBan transport incrementCounters
      surroundings).2.mBannedIPs (getSHA2_256Vec ip) = some (till, told) := by
  rw [checkConnection]
  split_ifs with hresources hdebug hbootstrap hbanned
  · exact hban
  · exact hban
  · exact hban
  · exact hban
  all_goals
    have hne : getSHA2_256Vec ip' ≠ getSHA2_256Vec ip := by
      intro heq
      rw [heq] at hbanned
      exact hbanned (isBanned_of_lt hban hnow)
  · exact (mBannedIPs_banIP_of_ne hne).trans hban
  · exact hban
  · have hcounted := congrFun (@mBannedIPs_countConnection settings getSHA2_256Vec s now ip' transport.counter
      incrementCounters) (getSHA2_256Vec ip)
    rw [checkRate]
    dsimp only
    split_ifs
    · exact (Function.update_of_ne (Ne.symm hne) _ _).trans (hcounted.trans hban)
    · exact hcounted.trans hban
    · exact hcounted.trans hban

/-- While a ban lasts no check changes it. -/
theorem mBannedIPs_isConnectionAllowed {s : CNetworkManager} {now : UInt64} (ip' : Bytes) (autoBan : Bool)
    (transport : eTransportType) (incrementCounters : Bool) (surroundings : Surroundings)
    (hban : s.mBannedIPs (getSHA2_256Vec ip) = some (till, told)) (hnow : now < till) :
    (s.isConnectionAllowed settings getSHA2_256Vec validateIPv4 now ip' autoBan transport incrementCounters
      surroundings).2.mBannedIPs (getSHA2_256Vec ip) = some (till, told) := by
  rw [isConnectionAllowed]
  split_ifs
  · exact hban
  · exact hban
  · rw [mBannedIPs_whitelist, hban]
  · exact hban
  · exact mBannedIPs_checkConnection ip' autoBan transport incrementCounters surroundings hban hnow

theorem leavesBan_step {s : CNetworkManager} {call : UInt64 × Op} (hcall : LeavesBan getSHA2_256Vec ip call.2)
    (hban : s.mBannedIPs (getSHA2_256Vec ip) = some (till, told)) (hnow : call.1 < till) :
    (step settings getSHA2_256Vec validateIPv4 s call).2.mBannedIPs (getSHA2_256Vec ip) = some (till, told) := by
  obtain ⟨now, op⟩ := call
  cases op with
  | isConnectionAllowed ip' autoBan transport incrementCounters surroundings =>
      exact mBannedIPs_isConnectionAllowed ip' autoBan transport incrementCounters surroundings hban hnow
  | banIP ip' time useKernelMode surroundings => exact (mBannedIPs_banIP_of_ne hcall).trans hban
  | pardonPeer address =>
      dsimp only [step]
      rw [pardonPeer]
      dsimp only
      split_ifs
      · exact hban
      · cases s.mConnectionsPerWindowIPs (getSHA2_256Vec address) <;>
          exact (Function.update_of_ne (Ne.symm hcall) _ _).trans hban
  | whitelist address saved => exact (congrFun (mBannedIPs_whitelist s address saved) _).trans hban
  | unWhitelist address saved =>
      dsimp only [step]
      rw [unWhitelist]
      split_ifs <;> exact hban
  | clearDataSet => exact absurd hcall not_false
  | incrementHTTPConnection ip' =>
      dsimp only [step]
      rw [incrementHTTPConnection]
      split_ifs <;> exact hban
  | incrementWebSocketConnection ip' =>
      dsimp only [step]
      rw [incrementWebSocketConnection, incrementHTTPConnection]
      split_ifs <;> exact hban
  | decrementHTTPConnection ip' =>
      dsimp only [step]
      rw [decrementHTTPConnection]
      cases s.mConcurrentHTTPConnections (getSHA2_256Vec ip') <;> exact hban
  | decrementWebSocketConnection ip' =>
      dsimp only [step]
      rw [decrementWebSocketConnection, decrementHTTPConnection]
      cases s.mConcurrentHTTPConnections (getSHA2_256Vec ip') <;> exact hban
  | registerConversation ip' =>
      dsimp only [step]
      rw [registerConversation]
      dsimp only
      split_ifs
      · exact hban
      · cases s.mConnectionsPerWindowIPs (getSHA2_256Vec ip') <;> exact hban

theorem unlisted_of_leavesBan {s : CNetworkManager} {call : UInt64 × Op} (hcall : LeavesBan getSHA2_256Vec ip call.2)
    (hlisted : ip ∉ s.mWhitelist) : ip ∉ (step settings getSHA2_256Vec validateIPv4 s call).2.mWhitelist := by
  refine unlisted_step s call ?_ hlisted
  obtain ⟨now, op⟩ := call
  cases op <;> first | exact hcall | trivial

/-- Answers that keep an address out. -/
def Refuses (ip : Bytes) (call : UInt64 × Op) (answer : Answer) : Prop :=
  ∀ autoBan transport incrementCounters surroundings,
    call.2 = .isConnectionAllowed ip autoBan transport incrementCounters surroundings → answer ≠ .connection .allowed

theorem refuses_of_banned {s : CNetworkManager} {call : UInt64 × Op} (hcall : LeavesBan getSHA2_256Vec ip call.2)
    (hlisted : ip ∉ s.mWhitelist) (hban : s.isBanned call.1 (getSHA2_256Vec ip) = true) :
    Refuses ip call (step settings getSHA2_256Vec validateIPv4 s call).1 := by
  obtain ⟨now, op⟩ := call
  rintro autoBan transport incrementCounters surroundings rfl hallowed
  rcases @isConnectionAllowed_cases settings getSHA2_256Vec validateIPv4 s now ip autoBan transport incrementCounters
    surroundings with ⟨-, hrefused⟩ | ⟨hnot, -⟩
  · exact hrefused ⟨(hcall rfl).1, (hcall rfl).2, hlisted⟩ (Answer.connection.inj hallowed)
  · exact Bool.eq_false_iff.mp hnot hban

theorem refused_run {s : CNetworkManager} {calls : List (UInt64 × Op)}
    (hcalls : ∀ call ∈ calls, LeavesBan getSHA2_256Vec ip call.2 ∧ call.1 < till) (hlisted : ip ∉ s.mWhitelist)
    (hban : s.mBannedIPs (getSHA2_256Vec ip) = some (till, told)) :
    Machine.EveryStep (step settings getSHA2_256Vec validateIPv4)
      (fun s call => Refuses ip call (step settings getSHA2_256Vec validateIPv4 s call).1) s calls := by
  induction calls generalizing s with
  | nil => trivial
  | cons call calls ih =>
      obtain ⟨⟨hcall, hnow⟩, hcalls⟩ := List.forall_mem_cons.mp hcalls
      exact ⟨refuses_of_banned hcall hlisted (isBanned_of_lt hban hnow),
        ih hcalls (unlisted_of_leavesBan hcall hlisted) (leavesBan_step hcall hban hnow)⟩

theorem exists_of_isBanned {s : CNetworkManager} {now : UInt64} {ipHash : Bytes} (hbanned : s.isBanned now ipHash = true) :
    ∃ till told, s.mBannedIPs ipHash = some (till, told) ∧ now < till := by
  rw [isBanned] at hbanned
  cases hentry : s.mBannedIPs ipHash with
  | none =>
      rw [hentry] at hbanned
      exact absurd hbanned Bool.false_ne_true
  | some ban =>
      rw [hentry] at hbanned
      exact ⟨ban.1, ban.2, rfl, (of_decide_eq_true hbanned).2⟩

theorem mBannedIPs_banIP (s : CNetworkManager) (now : UInt64) {time : UInt64} (htime : time ≠ 0) (useKernelMode : Bool)
    (surroundings : Surroundings) (hremote : ip ≠ localhost) :
    (s.banIP settings getSHA2_256Vec validateIPv4 now ip time useKernelMode surroundings).2.mBannedIPs
      (getSHA2_256Vec ip) = some (now + time, 0) := by
  rw [banIP, if_neg hremote]
  simp [htime]

variable (settings getSHA2_256Vec) in
/-- A connection is one of too many that the address has open. -/
def TooManyOpen (s : CNetworkManager) (ip : Bytes) (transport : eTransportType) : Prop :=
  (transport.isHTTPNewConnection ∨ transport.isWebSocket) ∧
    s.getHTTPConnectionsCount getSHA2_256Vec ip ≥ settings.maxHTTPConnectionsPerIP

variable (settings getSHA2_256Vec) in
/-- Until when an address is banned whose connection is answered with `DOS`: as before while it was banned, and else for
half an hour or for the time that is set. -/
def BannedTill (s : CNetworkManager) (now : UInt64) (ip : Bytes) (transport : eTransportType)
    (ban : UInt64 × UInt64) : Prop :=
  (s.mBannedIPs (getSHA2_256Vec ip) = some ban ∧ now < ban.1) ∨
    (s.isBanned now (getSHA2_256Vec ip) = false ∧ TooManyOpen settings getSHA2_256Vec s ip transport ∧
      ban = (now + 1800, 0)) ∨
    (s.isBanned now (getSHA2_256Vec ip) = false ∧ ¬TooManyOpen settings getSHA2_256Vec s ip transport ∧
      ban = (now + banDurationSeconds settings transport.counter, 0))

theorem banned_of_checkConnection {s : CNetworkManager} {now : UInt64} {transport : eTransportType}
    {incrementCounters : Bool} {surroundings : Surroundings} (hremote : ip ≠ localhost)
    (hDOS : (s.checkConnection settings getSHA2_256Vec validateIPv4 now ip true transport incrementCounters
      surroundings).1 = .DOS) :
    ∃ ban, (s.checkConnection settings getSHA2_256Vec validateIPv4 now ip true transport incrementCounters
        surroundings).2.mBannedIPs (getSHA2_256Vec ip) = some ban ∧
      BannedTill settings getSHA2_256Vec s now ip transport ban := by
  rw [checkConnection] at hDOS ⊢
  split_ifs at hDOS ⊢ with hresources hdebug hbootstrap hbanned hopen hautoBan
  · obtain ⟨till, told, hban, hnow⟩ := exists_of_isBanned hbanned
    exact ⟨(till, told), hban, .inl ⟨hban, hnow⟩⟩
  · exact ⟨(now + 1800, 0), mBannedIPs_banIP s now (by decide) true surroundings hremote,
      .inr (.inl ⟨Bool.eq_false_iff.mpr hbanned, hopen, rfl⟩)⟩
  · exact absurd rfl hautoBan
  · rw [checkRate] at hDOS ⊢
    dsimp only at hDOS ⊢
    split_ifs at hDOS ⊢
    exact ⟨_, Function.update_self _ _ _, .inr (.inr ⟨Bool.eq_false_iff.mpr hbanned, hopen, rfl⟩)⟩

/-- Who is answered with `DOS` is banned, and does not get in again before that ban is over, whatever else is going
on. -/
theorem refused_until_ban_ends (s : CNetworkManager) (now : UInt64) (ip : Bytes) (transport : eTransportType)
    (incrementCounters : Bool) (surroundings : Surroundings) (hremote : ip ≠ localhost)
    (hordinary : Ordinary s ip surroundings)
    (hDOS : (s.isConnectionAllowed settings getSHA2_256Vec validateIPv4 now ip true transport incrementCounters
      surroundings).1 = .DOS) :
    ∃ ban, (s.isConnectionAllowed settings getSHA2_256Vec validateIPv4 now ip true transport incrementCounters
        surroundings).2.mBannedIPs (getSHA2_256Vec ip) = some ban ∧
      BannedTill settings getSHA2_256Vec s now ip transport ban ∧
      ∀ calls : List (UInt64 × Op), (∀ call ∈ calls, LeavesBan getSHA2_256Vec ip call.2 ∧ call.1 < ban.1) →
        Machine.EveryStep (step settings getSHA2_256Vec validateIPv4)
          (fun s call => Refuses ip call (step settings getSHA2_256Vec validateIPv4 s call).1)
          (s.isConnectionAllowed settings getSHA2_256Vec validateIPv4 now ip true transport incrementCounters
            surroundings).2 calls := by
  have hcheck : s.isConnectionAllowed settings getSHA2_256Vec validateIPv4 now ip true transport incrementCounters
      surroundings = s.checkConnection settings getSHA2_256Vec validateIPv4 now ip true transport incrementCounters
        surroundings := by
    rw [isConnectionAllowed] at hDOS ⊢
    split_ifs at hDOS ⊢
    rfl
  rw [hcheck] at hDOS ⊢
  obtain ⟨ban, hban, htill⟩ := banned_of_checkConnection hremote hDOS
  refine ⟨ban, hban, htill, fun calls hcalls => refused_run hcalls ?_ hban⟩
  rw [mWhitelist_checkConnection]
  exact hordinary.unlisted

/-- The second connection of an address in ten seconds gets it banned for the time that is set. -/
theorem refused_second : ∃ ban,
    ((initial.isConnectionAllowed strict id (fun _ => true) 0 [8] true .QUIC true plain).2.isConnectionAllowed strict id
      (fun _ => true) 5 [8] true .QUIC true plain).2.mBannedIPs [8] = some ban ∧
    BannedTill strict id (initial.isConnectionAllowed strict id (fun _ => true) 0 [8] true .QUIC true plain).2 5 [8]
      .QUIC ban ∧
    ∀ calls : List (UInt64 × Op), (∀ call ∈ calls, LeavesBan id [8] call.2 ∧ call.1 < ban.1) →
      Machine.EveryStep (step strict id fun _ => true)
        (fun s call => Refuses [8] call (step strict id (fun _ => true) s call).1)
        ((initial.isConnectionAllowed strict id (fun _ => true) 0 [8] true .QUIC true plain).2.isConnectionAllowed
          strict id (fun _ => true) 5 [8] true .QUIC true plain).2 calls :=
  @refused_until_ban_ends strict id (fun _ => true)
    (initial.isConnectionAllowed strict id (fun _ => true) 0 [8] true .QUIC true plain).2 5 [8] .QUIC true plain
    (by decide) ⟨rfl, rfl, List.not_mem_nil⟩ (by decide)

end Rate

end Firewall

end Gridnet
