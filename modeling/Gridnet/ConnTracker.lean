import Gridnet.Bytes
import Gridnet.IntervalUnion
import Mathlib.Data.List.Sort

/-! How long a node was connected. The tracker keeps intervals for each address; what it answers about a window is the
number of the seconds of the window in which some connection was open. -/

namespace Gridnet

namespace CConnTracker

inductive eConversationState where
  | initial
  | initializing
  | hello
  | dataExchange
  | ending
  | ended
  | running
  | unableToConnect
  | idle
  | bye
  | connecting
  deriving DecidableEq

structure ConnectionEvent where
  state : eConversationState
  timestamp : ℤ

structure ConnectionInterval where
  startTime : ℤ
  endTime : Option ℤ

/-- The maps of the tracker, by the hash of an address. -/
structure Tracker where
  mConnectionEvents : Bytes → Option (List ConnectionEvent)
  mActiveConnections : Bytes → Option (List ConnectionInterval)

def toUInt64 (x : ℤ) : ℕ := (x % 2 ^ 64).toNat

/-- The most recent interval that is open ends; they are looked through from the back. -/
def endFirst (currentTime : ℤ) : List ConnectionInterval → List ConnectionInterval
  | [] => []
  | interval :: intervals =>
      if interval.endTime = none then { interval with endTime := some currentTime } :: intervals
      else interval :: endFirst currentTime intervals

section Model

variable (sha256 : Bytes → Bytes)

def Tracker.pingState (s : Tracker) (currentTime : ℤ) (ipAddress : Bytes) (state : eConversationState) : Tracker :=
  let hashKey := sha256 ipAddress
  let events := (s.mConnectionEvents hashKey).getD [] ++ [⟨state, currentTime⟩]
  let intervals := (s.mActiveConnections hashKey).getD []
  { mConnectionEvents := Function.update s.mConnectionEvents hashKey (some events)
    mActiveConnections :=
      match state with
      | .running => Function.update s.mActiveConnections hashKey (some (intervals ++ [⟨currentTime, none⟩]))
      | .ended => Function.update s.mActiveConnections hashKey (some (endFirst currentTime intervals.reverse).reverse)
      | _ => s.mActiveConnections }

/-- What is left of a list of the map; an empty one is erased. -/
def keepSome {α : Type} (keep : α → Bool) (entry : Option (List α)) : Option (List α) :=
  entry.bind fun l => if l.filter keep = [] then none else some (l.filter keep)

def Tracker.cleanupOldConnections (s : Tracker) (currentTime olderThan : ℤ) : Tracker where
  mConnectionEvents := fun hashKey => keepSome (fun event => !event.timestamp < olderThan) (s.mConnectionEvents hashKey)
  mActiveConnections := fun hashKey =>
    keepSome (fun interval => !interval.endTime.getD currentTime < olderThan) (s.mActiveConnections hashKey)

/-- The intervals within the window. -/
def adjustedIntervals (currentTime windowStart : ℤ) (intervals : List ConnectionInterval) : List (ℤ × ℤ) :=
  intervals.filterMap fun interval =>
    let startTime := max interval.startTime windowStart
    let endTime := min (interval.endTime.getD currentTime) currentTime
    if endTime ≤ startTime then none else some (startTime, endTime)

def pairLE (a b : ℤ × ℤ) : Bool := a.1 < b.1 || (a.1 == b.1 && a.2 ≤ b.2)

/-- `time_t` minus an unsigned number of seconds. -/
def windowStart (currentTime : ℤ) (timeWindow : ℕ) : ℤ := (currentTime - timeWindow).bmod (2 ^ 64)

def mergedIntervals (currentTime : ℤ) (timeWindow : ℕ) (intervals : List ConnectionInterval) : List (ℤ × ℤ) :=
  Intervals.merge ((adjustedIntervals currentTime (windowStart currentTime timeWindow) intervals).mergeSort pairLE)

def totalConnectedTime (merged : List (ℤ × ℤ)) : ℕ :=
  merged.foldl (fun total interval => (total + toUInt64 (interval.2 - interval.1)) % 2 ^ 64) 0

def Tracker.getTime (s : Tracker) (currentTime : ℤ) (ipAddress : Bytes) (timeWindow : ℕ) : ℕ :=
  match s.mActiveConnections (sha256 ipAddress) with
  | none => 0
  | some intervals =>
      if adjustedIntervals currentTime (windowStart currentTime timeWindow) intervals = [] then 0
      else totalConnectedTime (mergedIntervals currentTime timeWindow intervals)

def beginningsAndEnds (merged : List (ℤ × ℤ)) : List (ℤ × ℤ) :=
  merged.flatMap fun interval => [(interval.1, 1), (interval.2, -1)]

/-- The loop over the beginnings and the ends, in their order. -/
def simulate (currentTime : ℤ) (maxDuration : ℕ) : List (ℤ × ℤ) → ℕ → ℤ → ℤ → ℤ
  | [], _, _, lastEventTime => lastEventTime
  | event :: events, cumulativeTime, activeIntervals, lastEventTime =>
      if event.1 ≤ currentTime then
        simulate currentTime maxDuration events cumulativeTime (activeIntervals + event.2) event.1
      else
        let cumulativeTime := toUInt64 (cumulativeTime - activeIntervals * (event.1 - lastEventTime))
        if cumulativeTime ≤ maxDuration then event.1
        else simulate currentTime maxDuration events cumulativeTime (activeIntervals + event.2) event.1

def Tracker.getRenewalTime (s : Tracker) (currentTime : ℤ) (ipAddress : Bytes) (timeWindow maxDuration : ℕ) : ℕ :=
  match s.mActiveConnections (sha256 ipAddress) with
  | none => toUInt64 currentTime
  | some intervals =>
      if adjustedIntervals currentTime (windowStart currentTime timeWindow) intervals = [] then toUInt64 currentTime
      else
        let merged := mergedIntervals currentTime timeWindow intervals
        if totalConnectedTime merged < maxDuration then toUInt64 currentTime
        else
          let events := (beginningsAndEnds merged).mergeSort pairLE
          toUInt64 (simulate currentTime maxDuration events (totalConnectedTime merged) 0 currentTime)

end Model

/-! ### What happened -/

inductive Call where
  | pingState (ipAddress : Bytes) (state : eConversationState)
  | cleanupOldConnections (olderThan : ℤ)

section History

variable (sha256 : Bytes → Bytes)

/-- A call, made at a time. -/
def Tracker.step (s : Tracker) (call : ℤ × Call) : Tracker :=
  match call.2 with
  | .pingState ipAddress state => s.pingState sha256 call.1 ipAddress state
  | .cleanupOldConnections olderThan => s.cleanupOldConnections call.1 olderThan

def Tracker.init : Tracker := ⟨fun _ => none, fun _ => none⟩

/-- How a call for an address changes the number of its open connections. -/
def Call.count (ipAddress : Bytes) (connections : ℕ) : Call → ℕ
  | .pingState ip state =>
      if sha256 ip = sha256 ipAddress then
        if state = .running then connections + 1 else if state = .ended then connections - 1 else connections
      else connections
  | .cleanupOldConnections _ => connections

/-- The connections that are open in second `t`. -/
def connectionsAt (history : List (ℤ × Call)) (ipAddress : Bytes) (t : ℤ) : ℕ :=
  (history.filter fun call => call.1 ≤ t).foldl (fun connections call => call.2.count sha256 ipAddress connections) 0

/-- The seconds of a window in which some connection is open. -/
def connectedSeconds (history : List (ℤ × Call)) (ipAddress : Bytes) (currentTime : ℤ) (timeWindow : ℕ) : Finset ℤ :=
  ((Finset.range timeWindow).image fun second : ℕ => currentTime - timeWindow + second).filter fun t =>
    0 < connectionsAt sha256 history ipAddress t

end History

/-! ### The tracker records it -/

section Records

variable {sha256 : Bytes → Bytes} {s : Tracker} {history : List (ℤ × Call)} {ipAddress : Bytes}
  {time bound t : ℤ}

def Tracker.intervals (sha256 : Bytes → Bytes) (s : Tracker) (ipAddress : Bytes) : List ConnectionInterval :=
  (s.mActiveConnections (sha256 ipAddress)).getD []

variable {l : List ConnectionInterval}

def ConnectionInterval.Covers (interval : ConnectionInterval) (t : ℤ) : Prop :=
  interval.startTime ≤ t ∧ ∀ endTime ∈ interval.endTime, t < endTime

def openCount (intervals : List ConnectionInterval) : ℕ := intervals.countP fun interval => interval.endTime = none

/-- Nothing lies after the last call. The intervals that are open are the connections, and from the bound on a second
was covered when there were some. -/
structure Records (sha256 : Bytes → Bytes) (s : Tracker) (history : List (ℤ × Call)) (ipAddress : Bytes)
    (time bound : ℤ) : Prop where
  known : ∀ interval ∈ s.intervals sha256 ipAddress, interval.startTime ≤ time ∧
    ∀ endTime ∈ interval.endTime, endTime ≤ time
  since : ∀ t, time ≤ t → connectionsAt sha256 history ipAddress t = openCount (s.intervals sha256 ipAddress)
  before : ∀ t, bound ≤ t → t < time → ((∃ interval ∈ s.intervals sha256 ipAddress, interval.Covers t) ↔
    0 < connectionsAt sha256 history ipAddress t)

theorem openCount_pos : 0 < openCount l ↔ ∃ interval ∈ l, interval.endTime = none := by
  unfold openCount
  rw [List.countP_pos_iff]
  simp

theorem Records.covers_iff (h : Records sha256 s history ipAddress time bound) (hbound : bound ≤ t) :
    (∃ interval ∈ s.intervals sha256 ipAddress, interval.Covers t) ↔
      0 < connectionsAt sha256 history ipAddress t := by
  by_cases ht : t < time
  · exact h.before t hbound ht
  · rw [h.since t (not_lt.mp ht), openCount_pos]
    refine exists_congr fun interval => and_congr_right fun hmem => ?_
    obtain ⟨hstart, hend⟩ := h.known interval hmem
    constructor
    · intro hcovers
      refine Option.eq_none_iff_forall_not_mem.mpr fun endTime hendTime => ?_
      exact absurd ((hcovers.2 endTime hendTime).trans_le (hend endTime hendTime)) ht
    · intro hopen
      refine ⟨hstart.trans (not_lt.mp ht), fun endTime hendTime => ?_⟩
      rw [hopen] at hendTime
      cases hendTime

theorem connectionsAt_concat (call : ℤ × Call) : connectionsAt sha256 (history ++ [call]) ipAddress t =
    if call.1 ≤ t then call.2.count sha256 ipAddress (connectionsAt sha256 history ipAddress t)
    else connectionsAt sha256 history ipAddress t := by
  unfold connectionsAt
  rw [List.filter_append]
  split_ifs with hcall <;> simp [hcall]

/-- What a call at a time has to do to the intervals. -/
theorem Records.next (h : Records sha256 s history ipAddress time bound) {call : ℤ × Call} (htime : time ≤ call.1)
    {s' : Tracker}
    (hknown : ∀ interval ∈ s'.intervals sha256 ipAddress, interval.startTime ≤ call.1 ∧
      ∀ endTime ∈ interval.endTime, endTime ≤ call.1)
    (hcount : openCount (s'.intervals sha256 ipAddress) =
      call.2.count sha256 ipAddress (openCount (s.intervals sha256 ipAddress)))
    (hcovers : ∀ t, bound ≤ t → t < call.1 → ((∃ interval ∈ s'.intervals sha256 ipAddress, interval.Covers t) ↔
      ∃ interval ∈ s.intervals sha256 ipAddress, interval.Covers t)) :
    Records sha256 s' (history ++ [call]) ipAddress call.1 bound where
  known := hknown
  since := fun t ht => by rw [connectionsAt_concat, if_pos ht, h.since t (htime.trans ht), hcount]
  before := fun t hbound ht => by
    rw [connectionsAt_concat, if_neg (not_le.mpr ht), hcovers t hbound ht, h.covers_iff hbound]

/-! One call after the other. -/

theorem known_later (h : Records sha256 s history ipAddress time bound) {later : ℤ} (htime : time ≤ later) :
    ∀ interval ∈ s.intervals sha256 ipAddress, interval.startTime ≤ later ∧
      ∀ endTime ∈ interval.endTime, endTime ≤ later := by
  intro interval hmem
  obtain ⟨hstart, hend⟩ := h.known interval hmem
  exact ⟨hstart.trans htime, fun endTime hendTime => (hend endTime hendTime).trans htime⟩

theorem mem_endFirst {currentTime : ℤ} {interval : ConnectionInterval}
    (hmem : interval ∈ endFirst currentTime l) : interval ∈ l ∨
      ∃ old ∈ l, old.endTime = none ∧ interval = { old with endTime := some currentTime } := by
  induction l with
  | nil => cases hmem
  | cons first l ih =>
      unfold endFirst at hmem
      split_ifs at hmem with hopen
      · rcases List.mem_cons.mp hmem with rfl | hmem
        · exact .inr ⟨first, List.mem_cons_self, hopen, rfl⟩
        · exact .inl (List.mem_cons_of_mem _ hmem)
      · rcases List.mem_cons.mp hmem with rfl | hmem
        · exact .inl List.mem_cons_self
        · refine (ih hmem).imp (List.mem_cons_of_mem _) fun hold => ?_
          obtain ⟨old, hold, hrest⟩ := hold
          exact ⟨old, List.mem_cons_of_mem _ hold, hrest⟩

theorem openCount_endFirst (currentTime : ℤ) (l : List ConnectionInterval) :
    openCount (endFirst currentTime l) = openCount l - 1 := by
  induction l with
  | nil => rfl
  | cons first l ih =>
      unfold endFirst
      split_ifs with hopen
      · simp [openCount, hopen]
      · have hsame : ∀ l, openCount (first :: l) = openCount l := by
          intro l
          simp [openCount, hopen]
        rw [hsame, hsame, ih]

/-- Before it ended the connection was open. -/
theorem exists_covers_endFirst {currentTime : ℤ} (ht : t < currentTime) :
    (∃ interval ∈ endFirst currentTime l, interval.Covers t) ↔ ∃ interval ∈ l, interval.Covers t := by
  induction l with
  | nil => simp [endFirst]
  | cons first l ih =>
      unfold endFirst
      split_ifs with hopen
      · rw [List.exists_mem_cons_iff, List.exists_mem_cons_iff]
        refine or_congr_left (and_congr_right fun _ => ?_)
        simp [hopen, ht]
      · rw [List.exists_mem_cons_iff, List.exists_mem_cons_iff, ih]

theorem openCount_reverse (l : List ConnectionInterval) : openCount l.reverse = openCount l := List.countP_reverse

theorem intervals_pingState (now : ℤ) (ip : Bytes) (state : eConversationState) :
    (s.pingState sha256 now ip state).intervals sha256 ipAddress =
      if sha256 ip = sha256 ipAddress then
        if state = .running then s.intervals sha256 ipAddress ++ [⟨now, none⟩]
        else if state = .ended then (endFirst now (s.intervals sha256 ipAddress).reverse).reverse
        else s.intervals sha256 ipAddress
      else s.intervals sha256 ipAddress := by
  unfold Tracker.intervals Tracker.pingState
  by_cases hkey : sha256 ip = sha256 ipAddress
  · rw [if_pos hkey, hkey]
    cases state <;> simp
  · rw [if_neg hkey]
    cases state <;> simp [Function.update_of_ne (Ne.symm hkey)]

theorem Records.pingState (h : Records sha256 s history ipAddress time bound) {now : ℤ} (htime : time ≤ now)
    (ip : Bytes) (state : eConversationState) : Records sha256 (s.pingState sha256 now ip state)
      (history ++ [(now, .pingState ip state)]) ipAddress now bound := by
  have hlater := known_later h htime
  refine h.next htime ?_ ?_ fun t hbound ht => ?_
  · rw [intervals_pingState]
    split_ifs
    · refine List.forall_mem_append.mpr ⟨hlater, List.forall_mem_singleton.mpr ⟨le_rfl, fun _ hend => ?_⟩⟩
      cases hend
    · intro interval hmem
      rcases mem_endFirst (List.mem_reverse.mp hmem) with hkept | ⟨old, hold, -, rfl⟩
      · exact hlater interval (List.mem_reverse.mp hkept)
      · refine ⟨(hlater old (List.mem_reverse.mp hold)).1, fun endTime hend => ?_⟩
        exact (Option.some.inj hend).symm.le
    · exact hlater
    · exact hlater
  · rw [intervals_pingState]
    unfold Call.count
    dsimp only
    split_ifs
    · simp [openCount]
    · rw [openCount_reverse, openCount_endFirst, openCount_reverse]
    · rfl
    · rfl
  · rw [intervals_pingState]
    split_ifs
    · simp only [List.mem_append, List.mem_singleton, or_and_right, exists_or, exists_eq_left]
      exact or_iff_left fun hcovers => absurd hcovers.1 (not_le.mpr ht)
    · simp only [List.mem_reverse]
      rw [exists_covers_endFirst ht]
      simp only [List.mem_reverse]
    · rfl
    · rfl

theorem intervals_cleanup (now olderThan : ℤ) : (s.cleanupOldConnections now olderThan).intervals sha256 ipAddress =
    (s.intervals sha256 ipAddress).filter fun interval => !interval.endTime.getD now < olderThan := by
  unfold Tracker.intervals Tracker.cleanupOldConnections keepSome
  dsimp only
  cases s.mActiveConnections (sha256 ipAddress) with
  | none => rfl
  | some intervals =>
      rw [Option.bind_some]
      split_ifs with hnil
      · rw [Option.getD_some, hnil]
        rfl
      · rfl

theorem Records.cleanup (h : Records sha256 s history ipAddress time bound) {now olderThan : ℤ} (htime : time ≤ now)
    (hold : olderThan ≤ now) (hbound : olderThan ≤ bound) : Records sha256 (s.cleanupOldConnections now olderThan)
      (history ++ [(now, .cleanupOldConnections olderThan)]) ipAddress now bound := by
  refine h.next htime ?_ ?_ fun t ht _ => ?_
  · rw [intervals_cleanup]
    exact fun interval hmem => known_later h htime interval (List.mem_of_mem_filter hmem)
  · rw [intervals_cleanup]
    unfold openCount Call.count
    rw [List.countP_filter]
    refine List.countP_congr fun interval _ => ?_
    simp only [Bool.and_eq_true, decide_eq_true_eq, Bool.not_eq_true', decide_eq_false_iff_not, not_lt]
    exact and_iff_left_of_imp fun hopen => by simpa [hopen] using hold
  · rw [intervals_cleanup]
    refine exists_congr fun interval => ?_
    rw [List.mem_filter, and_assoc]
    refine and_congr_right fun _ => and_iff_right_of_imp fun hcovers => ?_
    rw [Bool.not_eq_true', decide_eq_false_iff_not, not_lt]
    cases hend : interval.endTime with
    | none => exact hold
    | some endTime => exact (hbound.trans ht).trans (hcovers.2 endTime hend).le

theorem init_records (ipAddress : Bytes) (time bound : ℤ) : Records sha256 Tracker.init [] ipAddress time bound where
  known := fun _ hmem => absurd hmem List.not_mem_nil
  since := fun _ _ => rfl
  before := fun _ _ _ => by simp [Tracker.init, Tracker.intervals, connectionsAt]

/-- Calls in the order of the clock, of which none cleans up what is younger than the bound. -/
structure Recent (bound currentTime : ℤ) (history : List (ℤ × Call)) : Prop where
  clock : (history.map Prod.fst ++ [currentTime]).Pairwise (· ≤ ·)
  cleanup : ∀ now olderThan, (now, .cleanupOldConnections olderThan) ∈ history → olderThan ≤ now ∧ olderThan ≤ bound

variable (sha256) in
theorem run_records {currentTime : ℤ} (h : Recent bound currentTime history) (ipAddress : Bytes) :
    ∃ time ≤ currentTime,
      Records sha256 (history.foldl (Tracker.step sha256) Tracker.init) history ipAddress time bound := by
  induction history using List.reverseRecOn generalizing currentTime with
  | nil => exact ⟨currentTime, le_rfl, init_records ..⟩
  | append_singleton history call ih =>
      have hclock := h.clock
      rw [List.map_append, List.map_singleton] at hclock
      obtain ⟨hbefore, -, hlast⟩ := List.pairwise_append.mp hclock
      have hcall : call.1 ≤ currentTime :=
        hlast call.1 (List.mem_append_right _ (List.mem_singleton_self _)) _ (List.mem_singleton_self _)
      have hrecent : Recent bound call.1 history :=
        ⟨hbefore, fun now olderThan hmem => h.cleanup now olderThan (List.mem_append_left _ hmem)⟩
      obtain ⟨time, htime, hrecords⟩ := ih hrecent
      refine ⟨call.1, hcall, ?_⟩
      rw [List.foldl_append]
      obtain ⟨now, call⟩ := call
      cases call with
      | pingState ip state => exact hrecords.pingState htime ip state
      | cleanupOldConnections olderThan =>
          obtain ⟨hold, hbound⟩ := h.cleanup now olderThan (List.mem_append_right _ (List.mem_singleton_self _))
          exact hrecords.cleanup htime hold hbound

end Records

/-! ### What it answers -/

section Answers

variable {sha256 : Bytes → Bytes} {s : Tracker} {history : List (ℤ × Call)} {ipAddress : Bytes}
  {currentTime time start : ℤ} {timeWindow maxDuration : ℕ} {l : List ConnectionInterval} {merged : List (ℤ × ℤ)}

theorem windowStart_eq (hnonneg : 0 ≤ currentTime) (hlt : currentTime < 2 ^ 63) (hwindow : timeWindow < 2 ^ 63) :
    windowStart currentTime timeWindow = currentTime - timeWindow :=
  Int.bmod_eq_of_le (by omega) (by omega)

theorem mem_adjustedIntervals {interval : ℤ × ℤ} : interval ∈ adjustedIntervals currentTime start l ↔
    ∃ old ∈ l, interval.1 = max old.startTime start ∧ interval.2 = min (old.endTime.getD currentTime) currentTime ∧
      interval.1 < interval.2 := by
  unfold adjustedIntervals
  rw [List.mem_filterMap]
  refine exists_congr fun old => and_congr_right fun _ => ?_
  dsimp only
  split_ifs with hempty
  · refine iff_of_false (fun h => by cases h) ?_
    rintro ⟨hfirst, hsecond, hless⟩
    rw [hfirst, hsecond] at hless
    exact absurd hless (not_lt.mpr hempty)
  · rw [Option.some.injEq]
    constructor
    · rintro rfl
      exact ⟨rfl, rfl, not_le.mp hempty⟩
    · rintro ⟨hfirst, hsecond, -⟩
      exact Prod.ext hfirst.symm hsecond.symm

theorem pairwise_fst_mergeSort (pairs : List (ℤ × ℤ)) : (pairs.mergeSort pairLE).Pairwise fun a b => a.1 ≤ b.1 := by
  refine (List.pairwise_mergeSort (fun a b c => ?_) (fun a b => ?_) _).imp fun {a b} hle => ?_
  · simp only [pairLE, Bool.or_eq_true, Bool.and_eq_true, decide_eq_true_eq, beq_iff_eq]
    omega
  · simp only [pairLE, Bool.or_eq_true, Bool.and_eq_true, decide_eq_true_eq, beq_iff_eq]
    omega
  · simp only [pairLE, Bool.or_eq_true, Bool.and_eq_true, decide_eq_true_eq, beq_iff_eq] at hle
    omega

theorem le_getLast {pairs : List (ℤ × ℤ)} (hsorted : pairs.Pairwise fun a b => a.1 ≤ b.1) (hsome : pairs ≠ []) :
    ∀ pair ∈ pairs, pair.1 ≤ (pairs.getLast hsome).1 := by
  intro pair hmem
  rw [← List.dropLast_concat_getLast hsome] at hmem hsorted
  rcases List.mem_append.mp hmem with hmem | hmem
  · exact (List.pairwise_append.mp hsorted).2.2 pair hmem _ (List.mem_singleton_self _)
  · exact (congrArg Prod.fst (List.mem_singleton.mp hmem)).le

theorem ordered_adjusted (l : List ConnectionInterval) :
    Intervals.Ordered ((adjustedIntervals currentTime start l).mergeSort pairLE) where
  sorted := pairwise_fst_mergeSort _
  proper := by
    intro interval hmem
    obtain ⟨old, -, -, -, hless⟩ := mem_adjustedIntervals.mp ((List.mergeSort_perm ..).mem_iff.mp hmem)
    exact hless

theorem mem_covered_adjusted {t : ℤ} : t ∈ Intervals.covered (adjustedIntervals currentTime start l) ↔
    start ≤ t ∧ t < currentTime ∧ ∃ interval ∈ l, interval.Covers t := by
  have hcovers : ∀ interval : ConnectionInterval, t < currentTime →
      (interval.Covers t ↔ interval.startTime ≤ t ∧ t < interval.endTime.getD currentTime) := by
    intro interval ht
    unfold ConnectionInterval.Covers
    cases interval.endTime <;> simp [ht]
  constructor
  · rintro ⟨interval, hmem, hfirst, hsecond⟩
    obtain ⟨old, hold, hstart, hend, -⟩ := mem_adjustedIntervals.mp hmem
    rw [hstart] at hfirst
    rw [hend] at hsecond
    have ht := hsecond.trans_le (min_le_right ..)
    refine ⟨(le_max_right ..).trans hfirst, ht, old, hold, ?_⟩
    exact (hcovers old ht).mpr ⟨(le_max_left ..).trans hfirst, hsecond.trans_le (min_le_left ..)⟩
  · rintro ⟨hstart, ht, old, hold, hcovered⟩
    obtain ⟨hfirst, hsecond⟩ := (hcovers old ht).mp hcovered
    have hin : max old.startTime start ≤ t ∧ t < min (old.endTime.getD currentTime) currentTime :=
      ⟨max_le hfirst hstart, lt_min hsecond ht⟩
    exact ⟨(_, _), mem_adjustedIntervals.mpr ⟨old, hold, rfl, rfl, hin.1.trans_lt hin.2⟩, hin⟩

theorem mem_connectedSeconds : t ∈ connectedSeconds sha256 history ipAddress currentTime timeWindow ↔
    currentTime - timeWindow ≤ t ∧ t < currentTime ∧ 0 < connectionsAt sha256 history ipAddress t := by
  rw [connectedSeconds, Finset.mem_filter, Finset.mem_image, ← and_assoc]
  refine and_congr_left fun _ => ⟨?_, fun hwindow => ⟨(t - (currentTime - timeWindow)).toNat, ?_⟩⟩
  · rintro ⟨second, hsecond, rfl⟩
    rw [Finset.mem_range] at hsecond
    omega
  · rw [Finset.mem_range]
    omega

/-- The points of the merged intervals are the seconds in which some connection was open. -/
theorem covered_merged (h : Records sha256 s history ipAddress time (currentTime - timeWindow))
    (hwindow : windowStart currentTime timeWindow = currentTime - timeWindow) :
    Intervals.covered (mergedIntervals currentTime timeWindow (s.intervals sha256 ipAddress)) =
      connectedSeconds sha256 history ipAddress currentTime timeWindow := by
  ext t
  unfold mergedIntervals
  rw [Intervals.covered_merge (ordered_adjusted _), Intervals.covered_perm (List.mergeSort_perm ..),
    mem_covered_adjusted, hwindow, Finset.mem_coe, mem_connectedSeconds]
  refine and_congr_right fun hstart => and_congr_right fun _ => ?_
  exact h.covers_iff hstart

theorem foldl_toUInt64 (l : List (ℤ × ℤ)) {total : ℕ} (htotal : total < 2 ^ 64) :
    ((l.foldl (fun total interval => (total + toUInt64 (interval.2 - interval.1)) % 2 ^ 64) total : ℕ) : ℤ) =
      (total + (l.map fun interval => interval.2 - interval.1).sum) % 2 ^ 64 := by
  induction l generalizing total with
  | nil =>
      simp only [List.foldl_nil, List.map_nil, List.sum_nil, add_zero]
      omega
  | cons interval l ih =>
      have hnext : (total + toUInt64 (interval.2 - interval.1)) % 2 ^ 64 < 2 ^ 64 := Nat.mod_lt _ (by norm_num)
      rw [List.foldl_cons, ih hnext, List.map_cons, List.sum_cons]
      unfold toUInt64
      omega

/-- The sum does not overflow when the window does not. -/
theorem totalConnectedTime_eq {n : ℕ} (hn : n < 2 ^ 64)
    (hsum : (merged.map fun interval => interval.2 - interval.1).sum = n) : totalConnectedTime merged = n := by
  have hfold := foldl_toUInt64 merged (show 0 < 2 ^ 64 by norm_num)
  rw [hsum] at hfold
  unfold totalConnectedTime
  omega

variable (sha256) in
theorem card_connectedSeconds_le (history : List (ℤ × Call)) (ipAddress : Bytes) (currentTime : ℤ) (timeWindow : ℕ) :
    (connectedSeconds sha256 history ipAddress currentTime timeWindow).card ≤ timeWindow := by
  refine (Finset.card_filter_le ..).trans (Finset.card_image_le.trans ?_)
  rw [Finset.card_range]

theorem mergedIntervals_of_nil
    (hnil : adjustedIntervals currentTime (windowStart currentTime timeWindow) l = []) :
    mergedIntervals currentTime timeWindow l = [] := by
  rw [mergedIntervals, hnil, List.mergeSort_nil]
  rfl

theorem total_merged (h : Records sha256 s history ipAddress time (currentTime - timeWindow))
    (hwindow : windowStart currentTime timeWindow = currentTime - timeWindow) (hlt : timeWindow < 2 ^ 63) :
    totalConnectedTime (mergedIntervals currentTime timeWindow (s.intervals sha256 ipAddress)) =
      (connectedSeconds sha256 history ipAddress currentTime timeWindow).card := by
  have hle := card_connectedSeconds_le sha256 history ipAddress currentTime timeWindow
  refine totalConnectedTime_eq (hle.trans_lt (hlt.trans (by norm_num))) ?_
  have hcovered := covered_merged h hwindow
  unfold mergedIntervals at hcovered ⊢
  rw [Intervals.sum_merge (ordered_adjusted _), ← Intervals.covered_merge (ordered_adjusted _), hcovered,
    Set.ncard_coe_finset]

theorem adjusted_eq_nil_iff (h : Records sha256 s history ipAddress time (currentTime - timeWindow))
    (hwindow : windowStart currentTime timeWindow = currentTime - timeWindow) :
    adjustedIntervals currentTime (windowStart currentTime timeWindow) (s.intervals sha256 ipAddress) = [] ↔
      connectedSeconds sha256 history ipAddress currentTime timeWindow = ∅ := by
  have hordered : Intervals.Ordered ((adjustedIntervals currentTime (windowStart currentTime timeWindow)
      (s.intervals sha256 ipAddress)).mergeSort pairLE) := ordered_adjusted _
  have hcovered := covered_merged h hwindow
  unfold mergedIntervals at hcovered
  rw [Intervals.covered_merge hordered] at hcovered
  rw [← Finset.coe_eq_empty, ← hcovered, Intervals.covered_eq_empty_iff hordered.proper,
    ← List.length_eq_zero_iff, ← List.length_eq_zero_iff, List.length_mergeSort]

theorem getTime_eq (s : Tracker) : s.getTime sha256 currentTime ipAddress timeWindow =
    totalConnectedTime (mergedIntervals currentTime timeWindow (s.intervals sha256 ipAddress)) := by
  unfold Tracker.getTime Tracker.intervals
  cases s.mActiveConnections (sha256 ipAddress) with
  | none => exact (congrArg totalConnectedTime (mergedIntervals_of_nil rfl)).symm
  | some intervals =>
      dsimp only
      split_ifs with hnil
      · exact (congrArg totalConnectedTime (mergedIntervals_of_nil hnil)).symm
      · rfl

/-- The time that is answered is the number of the seconds. -/
theorem getTime_run (hrecent : Recent (currentTime - timeWindow) currentTime history) (hnonneg : 0 ≤ currentTime)
    (hlt : currentTime < 2 ^ 63) (hwindow : timeWindow < 2 ^ 63) :
    (history.foldl (Tracker.step sha256) Tracker.init).getTime sha256 currentTime ipAddress timeWindow =
      (connectedSeconds sha256 history ipAddress currentTime timeWindow).card := by
  obtain ⟨time, -, h⟩ := run_records sha256 hrecent ipAddress
  have hstart := windowStart_eq hnonneg hlt hwindow
  rw [getTime_eq, total_merged h hstart hwindow]

/-! ### When the next connection is allowed -/

/-- No event is still to come, so that the loop goes through to the last. -/
theorem simulate_past {events : List (ℤ × ℤ)} (hpast : ∀ event ∈ events, event.1 ≤ currentTime)
    (cumulativeTime : ℕ) (activeIntervals lastEventTime : ℤ) :
    simulate currentTime maxDuration events cumulativeTime activeIntervals lastEventTime =
      (events.getLast?.map Prod.fst).getD lastEventTime := by
  induction events generalizing activeIntervals lastEventTime with
  | nil => rfl
  | cons event events ih =>
      obtain ⟨hevent, hpast⟩ := List.forall_mem_cons.mp hpast
      rw [simulate, if_pos hevent, ih hpast, List.getLast?_cons]
      cases events.getLast? <;> rfl

theorem mem_beginningsAndEnds {event : ℤ × ℤ} : event ∈ beginningsAndEnds merged ↔
    ∃ interval ∈ merged, event = (interval.1, 1) ∨ event = (interval.2, -1) := by
  simp [beginningsAndEnds]

theorem beginningsAndEnds_past (hproper : ∀ interval ∈ merged, interval.1 < interval.2)
    (hpast : ∀ t ∈ Intervals.covered merged, t < currentTime) :
    ∀ event ∈ beginningsAndEnds merged, event.1 ≤ currentTime := by
  intro event hmem
  obtain ⟨interval, hinterval, heither⟩ := mem_beginningsAndEnds.mp hmem
  have hless := hproper interval hinterval
  have hlast := hpast (interval.2 - 1) ⟨interval, hinterval, by omega, by omega⟩
  rcases heither with rfl | rfl <;> dsimp only <;> omega

/-- The last event is the end of the last second that is covered. -/
theorem last_event (hproper : ∀ interval ∈ merged, interval.1 < interval.2) (hsome : merged ≠ []) :
    ∃ event, ((beginningsAndEnds merged).mergeSort pairLE).getLast? = some event ∧
      IsGreatest (Intervals.covered merged) (event.1 - 1) := by
  obtain ⟨first, rest, hfirst⟩ := List.exists_cons_of_ne_nil hsome
  have hperm := List.mergeSort_perm (beginningsAndEnds merged) pairLE
  have hnonempty : (beginningsAndEnds merged).mergeSort pairLE ≠ [] := by
    refine List.ne_nil_of_mem (hperm.mem_iff.mpr (mem_beginningsAndEnds.mpr ⟨first, ?_, .inl rfl⟩))
    exact hfirst ▸ List.mem_cons_self
  refine ⟨_, List.getLast?_eq_some_getLast hnonempty, ?_⟩
  generalize hevent : ((beginningsAndEnds merged).mergeSort pairLE).getLast hnonempty = event
  have hmem : event ∈ beginningsAndEnds merged := hperm.mem_iff.mp (hevent ▸ List.getLast_mem hnonempty)
  have hlast : ∀ interval ∈ merged, interval.2 ≤ event.1 := by
    intro interval hinterval
    have hend : (interval.2, -1) ∈ (beginningsAndEnds merged).mergeSort pairLE :=
      hperm.mem_iff.mpr (mem_beginningsAndEnds.mpr ⟨interval, hinterval, .inr rfl⟩)
    exact hevent ▸ le_getLast (pairwise_fst_mergeSort _) hnonempty _ hend
  obtain ⟨interval, hinterval, heither⟩ := mem_beginningsAndEnds.mp hmem
  have hends : event.1 = interval.2 := by
    rcases heither with rfl | rfl
    · exact absurd (hproper interval hinterval) (not_lt.mpr (hlast interval hinterval))
    · rfl
  refine ⟨⟨interval, hinterval, ?_, ?_⟩, fun t ht => ?_⟩
  · have hless := hproper interval hinterval
    omega
  · omega
  · obtain ⟨other, hother, -, hbefore⟩ := ht
    have hless := hbefore.trans_le (hlast other hother)
    omega

theorem mergedIntervals_proper (currentTime : ℤ) (timeWindow : ℕ) (l : List ConnectionInterval) :
    ∀ interval ∈ mergedIntervals currentTime timeWindow l, interval.1 < interval.2 :=
  (Intervals.separated_merge (ordered_adjusted l)).proper

theorem getRenewalTime_eq (s : Tracker) :
    s.getRenewalTime sha256 currentTime ipAddress timeWindow maxDuration =
      if adjustedIntervals currentTime (windowStart currentTime timeWindow) (s.intervals sha256 ipAddress) = [] then
        toUInt64 currentTime
      else
        let merged := mergedIntervals currentTime timeWindow (s.intervals sha256 ipAddress)
        if totalConnectedTime merged < maxDuration then toUInt64 currentTime
        else toUInt64 (simulate currentTime maxDuration ((beginningsAndEnds merged).mergeSort pairLE)
          (totalConnectedTime merged) 0 currentTime) := by
  unfold Tracker.getRenewalTime Tracker.intervals
  cases s.mActiveConnections (sha256 ipAddress) <;> rfl

/-- The end of a connection is never after now, so that what is answered is not either: the address is allowed to
connect at once, or it was allowed when the last second had gone in which it was connected. -/
theorem getRenewalTime_run (hrecent : Recent (currentTime - timeWindow) currentTime history)
    (hnonneg : 0 ≤ currentTime) (hlt : currentTime < 2 ^ 63) (hwindow : timeWindow < 2 ^ 63) :
    let online := connectedSeconds sha256 history ipAddress currentTime timeWindow
    let renewal := (history.foldl (Tracker.step sha256) Tracker.init).getRenewalTime sha256 currentTime ipAddress
      timeWindow maxDuration
    if online = ∅ ∨ online.card < maxDuration then renewal = toUInt64 currentTime
    else ∃ last, IsGreatest (online : Set ℤ) last ∧ last < currentTime ∧ renewal = toUInt64 (last + 1) := by
  intro online renewal
  obtain ⟨time, -, h⟩ := run_records sha256 hrecent ipAddress
  have hstart := windowStart_eq hnonneg hlt hwindow
  have hcovered := covered_merged h hstart
  have hrenewal : renewal = _ := getRenewalTime_eq ..
  dsimp only at hrenewal
  rw [total_merged h hstart hwindow, if_congr (adjusted_eq_nil_iff h hstart) rfl rfl] at hrenewal
  by_cases hempty : online = ∅
  · rw [if_pos (.inl hempty), hrenewal, if_pos hempty]
  · rw [if_neg hempty] at hrenewal
    split_ifs with hallowed
    · rw [hrenewal, if_pos (hallowed.resolve_left hempty)]
    · rw [if_neg (not_or.mp hallowed).2] at hrenewal
      revert hcovered hrenewal
      have hproper := mergedIntervals_proper currentTime timeWindow
        ((history.foldl (Tracker.step sha256) Tracker.init).intervals sha256 ipAddress)
      revert hproper
      generalize mergedIntervals currentTime timeWindow _ = merged
      intro hproper hcovered hrenewal
      have hsome : merged ≠ [] := by
        intro hnil
        rw [(Intervals.covered_eq_empty_iff hproper).mpr hnil] at hcovered
        exact hempty (Finset.coe_eq_empty.mp hcovered.symm)
      obtain ⟨event, hlast, hgreatest⟩ := last_event hproper hsome
      have hpast : ∀ t ∈ Intervals.covered merged, t < currentTime := by
        intro t ht
        rw [hcovered, Finset.mem_coe] at ht
        exact (mem_connectedSeconds.mp ht).2.1
      rw [simulate_past (fun event hmem => beginningsAndEnds_past hproper hpast event
        ((List.mergeSort_perm ..).mem_iff.mp hmem)), hlast] at hrenewal
      refine ⟨event.1 - 1, hcovered ▸ hgreatest, hpast _ hgreatest.1, ?_⟩
      rw [sub_add_cancel]
      exact hrenewal

end Answers

/-- Two connections, one within the other, and the start of the outer one has left the window. -/
theorem getTime_nested :
    let history : List (ℤ × Call) := [(2, .pingState [1] .running), (4, .pingState [1] .running),
      (5, .pingState [1] .ended), (7, .pingState [1] .ended)]
    (history.foldl (Tracker.step id) Tracker.init).getTime id 9 [1] 6 = 4 := by
  intro history
  refine (getTime_run ⟨by decide, ?_⟩ (by decide) (by decide) (by decide)).trans (by decide)
  exact fun now olderThan hmem => by simp [history] at hmem

/-- The limit is used up, and the answer is when the connection ended. -/
theorem getRenewalTime_past :
    let history : List (ℤ × Call) := [(2, .pingState [1] .running), (7, .pingState [1] .ended)]
    ∃ last, IsGreatest (connectedSeconds id history [1] 9 6 : Set ℤ) last ∧ last < 9 ∧
      (history.foldl (Tracker.step id) Tracker.init).getRenewalTime id 9 [1] 6 3 = toUInt64 (last + 1) := by
  intro history
  have hrecent : Recent (9 - (6 : ℕ)) 9 history :=
    ⟨by decide, fun now olderThan hmem => by simp [history] at hmem⟩
  have hrenewal := @getRenewalTime_run id history [1] 9 6 3 hrecent (by decide) (by decide) (by decide)
  dsimp only at hrenewal
  rwa [if_neg (by decide)] at hrenewal

end CConnTracker

end Gridnet
