import Evidentrail.Core.LaneOrder
import Evidentrail.Core.Reference
import Evidentrail.Lib.Window

/-!
# Expansion

What a reader may ask of a sealed ledger: the events around an event, in the
ledger or in its lane, and the events a reference names. The windows are exact
(`EventLedger.expand_eq_window`, `EventLedger.expandSameLane_eq_window`), and a
response is what fits the limits from the front of what the reference authorizes
(`expansion_exact`).
-/

namespace Evidentrail

open Rust Std Slice

/-! ## Windows of a ledger -/

/-- The events around an event, which is at the offset among them. -/
structure Expansion where
  anchor : EventId
  anchorOffset : Nat
  events : List Event

/-- The same for the events of a lane. -/
structure LaneExpansion where
  anchor : EventId
  anchorOffset : Nat
  events : List Event

namespace EventLedger

def expand (ledger : EventLedger) (anchor : EventId) (before after : Nat) :
    Except (Fault LedgerLookupError) Expansion := do
  let position ← okOr (.err (.unknownEvent anchor)) ledger.positions[anchor]?
  let start := position - before
  let stop := min (saturatingAdd (saturatingAdd position after) 1) ledger.events.length
  let events ← okOr .panicked (subslice ledger.events start stop)
  .ok { anchor, anchorOffset := position - start, events }

/-- The two `expect`s and the indices out of bounds are `panicked`. -/
def expandSameLane (ledger : EventLedger) (anchor : EventId) (before after : Nat) :
    Except (Fault LedgerLookupError) LaneExpansion := do
  let position ← okOr (.err (.unknownEvent anchor)) ledger.positions[anchor]?
  let event ← okOr .panicked ledger.events[position]?
  let lanePositions ← okOr .panicked ledger.lanePositions[event.lane]?
  let laneOffset ← okOr .panicked
    (binarySearchByKey (fun position => position) position lanePositions).toOption
  let start := laneOffset.val - before
  let stop := min (saturatingAdd (saturatingAdd laneOffset.val after) 1) lanePositions.length
  let window ← okOr .panicked (subslice lanePositions start stop)
  let events ← okOr .panicked (window.mapM (ledger.events[·]?))
  .ok { anchor, anchorOffset := laneOffset.val - start, events }

/-- The ends saturate where a `usize` ends, and no list is that long. -/
theorem saturated_stop {position after length : Nat} (hlength : length < u64Bound) :
    min (saturatingAdd (saturatingAdd position after) 1) length =
      min (position + after + 1) length := by
  unfold saturatingAdd
  omega

variable {ledger : EventLedger} {event : Event}

/-- The window of the ledger around an event, with the event at its offset. -/
theorem expand_eq_window (h : ledger.Indexed) (hlaned : ledger.Laned)
    (hevent : event ∈ ledger.events) (before after : Nat) :
    ledger.expand event.id before after = .ok {
      anchor := event.id
      anchorOffset := ledger.pos event - (ledger.pos event - before)
      events := window ledger.events (ledger.pos event) before after } := by
  obtain ⟨hindex, hget⟩ := h.lookup hevent
  have hposition := (List.getElem?_eq_some_iff.mp hget).1
  rw [expand, hindex, okOr_some, except_bind_ok, saturated_stop hlaned.length_lt]
  simp only [subslice_window hposition, okOr_some, except_bind_ok]

/-- The offset of an event in its lane. -/
def laneOffset (ledger : EventLedger) (event : Event) : Nat :=
  ((ledger.laneEvents event.lane).map ledger.pos).idxOf (ledger.pos event)

/-- The event is in its lane at its offset. -/
theorem getElem?_laneOffset (h : ledger.Indexed) (hevent : event ∈ ledger.events) :
    (ledger.laneEvents event.lane)[ledger.laneOffset event]? = some event := by
  have hmem : event ∈ ledger.laneEvents event.lane :=
    List.mem_filter.mpr ⟨hevent, decide_eq_true rfl⟩
  have hposition := List.getElem?_idxOf (List.mem_map_of_mem (f := ledger.pos) hmem)
  rw [List.getElem?_map, Option.map_eq_some_iff] at hposition
  obtain ⟨found, hfound, hsame⟩ := hposition
  have hin := (List.mem_filter.mp (List.mem_of_getElem? hfound)).1
  have hlookup := (h.lookup hin).2
  rw [hsame, (h.lookup hevent).2, Option.some.injEq] at hlookup
  rw [laneOffset, hfound, hlookup]

/-- The search in the lane index finds the offset of the event. -/
theorem binarySearch_lanePositions (h : ledger.Indexed) (hevent : event ∈ ledger.events) :
    ∃ hlt : ledger.laneOffset event < ((ledger.laneEvents event.lane).map ledger.pos).length,
      binarySearchByKey (fun position => position) (ledger.pos event)
        ((ledger.laneEvents event.lane).map ledger.pos) = .ok ⟨ledger.laneOffset event, hlt⟩ := by
  have hget := getElem?_laneOffset h hevent
  have hlt : ledger.laneOffset event < ((ledger.laneEvents event.lane).map ledger.pos).length := by
    rw [List.length_map]
    exact (List.getElem?_eq_some_iff.mp hget).1
  have hsorted : StrictlySorted (fun position : Nat => position)
      ((ledger.laneEvents event.lane).map ledger.pos) := by
    rw [StrictlySorted, List.pairwise_map]
    exact (h.pairwise_pos List.filter_sublist).imp fun hlt => Nat.compare_eq_lt.mpr hlt
  refine ⟨hlt, hsorted.binarySearchByKey_eq_ok.mpr ?_⟩
  have hvalue : ((ledger.laneEvents event.lane).map ledger.pos)[ledger.laneOffset event]? =
      some (ledger.pos event) := by
    rw [List.getElem?_map, hget]
    rfl
  exact (List.getElem?_eq_some_iff.mp hvalue).2

/-- The window of the lane around an event, with the event at its offset. -/
theorem expandSameLane_eq_window (h : ledger.Indexed) (hlaned : ledger.Laned)
    (hevent : event ∈ ledger.events) (before after : Nat) :
    ledger.expandSameLane event.id before after = .ok {
      anchor := event.id
      anchorOffset := ledger.laneOffset event - (ledger.laneOffset event - before)
      events := window (ledger.laneEvents event.lane) (ledger.laneOffset event) before after } := by
  obtain ⟨hindex, hget⟩ := h.lookup hevent
  obtain ⟨hlt, hsearch⟩ := binarySearch_lanePositions h hevent
  have hlength : ((ledger.laneEvents event.lane).map ledger.pos).length < u64Bound := by
    rw [List.length_map]
    exact Nat.lt_of_le_of_lt (List.length_filter_le _ _) hlaned.length_lt
  have hmembers : ∀ member ∈ window (ledger.laneEvents event.lane) (ledger.laneOffset event)
      before after, member ∈ ledger.events := fun member hmember =>
    (List.mem_filter.mp ((isInfix_window _ _ _ _).subset hmember)).1
  rw [expandSameLane, hindex, okOr_some, except_bind_ok, hget, okOr_some, except_bind_ok,
    hlaned.lanePositions event hevent, okOr_some, except_bind_ok, hsearch]
  simp only [Except.toOption, okOr_some, except_bind_ok]
  rw [saturated_stop hlength, subslice_window hlt, okOr_some, except_bind_ok, ← map_window,
    mapM_lookup h hmembers]
  rfl

end EventLedger

/-! ## Retained results -/

inductive ResultStoreError where
  | duplicateResultId
  | timestampOverflow
  | invalidReferenceMaterial
  | invalidExpansionLimit
  | invalidEvidenceAlias
  | aliasManifestAlreadyPublished
  | insufficientExpansionBudget
  | referenceUnavailable
deriving DecidableEq

def maxExpansionEvents : Nat := 512
def maxExpansionBytes : Nat := 8 * 1024 * 1024
def maxExpansionBeforeAfter : Nat := 256

/-- The checks of `ExpansionLimitV1::new`. -/
def checkExpansionLimit (maxEvents maxBytes before after : Nat) : Except ResultStoreError Unit :=
  if maxEvents = 0 ∨ maxEvents > maxExpansionEvents ∨ maxBytes = 0 ∨
      maxBytes > maxExpansionBytes ∨ before > maxExpansionBeforeAfter ∨
      after > maxExpansionBeforeAfter then
    .error .invalidExpansionLimit
  else .ok ()

structure ExpansionLimitV1 where
  maxEvents : Nat
  maxBytes : Nat
  before : Nat
  after : Nat
  checked : checkExpansionLimit maxEvents maxBytes before after = .ok ()

structure ExpansionRequestV1 where
  resultId : ResultId
  referenceId : EvidenceReferenceId
  relation : ExpansionRelationV1
  limit : ExpansionLimitV1

structure ExpandedEventV1 where
  eventId : EventId
  exactnessBasis : ExactnessBasis
  acquisitionSequence : AcquisitionSequence
  laneSequence : LaneSequence
  recordState : RecordState
  exactBytes : List UInt8

def ExpandedEventV1.fromEvent (event : Event) : ExpandedEventV1 where
  eventId := event.id
  exactnessBasis := event.exactnessBasis
  acquisitionSequence := event.acquisitionSequence
  laneSequence := event.laneSequence
  recordState := event.recordState
  exactBytes := event.raw

structure ExpansionResponseV1 where
  resultId : ResultId
  referenceId : EvidenceReferenceId
  relation : ExpansionRelationV1
  events : List ExpandedEventV1
  returnedBytes : Nat
  truncated : Bool

/-- Every lookup failure looks the same; a panic stays one. -/
def unavailable {ε α : Type} : Except (Fault ε) α → Except (Fault ResultStoreError) α
  | .ok a => .ok a
  | .error (.err _) => .error (.err .referenceUnavailable)
  | .error .panicked => .error .panicked
  | .error .diverged => .error .diverged

def singleEventTarget (reference : EvidenceReferenceV1) :
    Except (Fault ResultStoreError) EventId :=
  match reference.targets with
  | [.event id] => .ok id
  | _ => .error (.err .referenceUnavailable)

/-- One target of the exact relation. -/
def exactTarget (ledger : EventLedger) :
    EvidenceTargetRef → Except (Fault ResultStoreError) Event
  | .event id =>
      match ledger.event id with
      | .ok event => okOr .panicked event
      | .error _ => .error (.err .referenceUnavailable)
  | .block _ => .error (.err .referenceUnavailable)

def expansionCandidates (ledger : EventLedger) (reference : EvidenceReferenceV1)
    (request : ExpansionRequestV1) : Except (Fault ResultStoreError) (List Event) :=
  match request.relation with
  | .exact => reference.targets.mapM (exactTarget ledger)
  | .globalBeforeAfter => do
      let anchor ← singleEventTarget reference
      let expansion ← unavailable
        (ledger.expand anchor request.limit.before request.limit.after)
      .ok expansion.events
  | .sameLaneBeforeAfter => do
      let anchor ← singleEventTarget reference
      let expansion ← unavailable
        (ledger.expandSameLane anchor request.limit.before request.limit.after)
      .ok expansion.events
  | .patternMembers | .sameAttestedTrace | .aroundOnset => .error (.err .referenceUnavailable)

/-- What the loop of `expand_retained_result_v1` has returned so far. -/
structure Returned where
  events : List Event
  bytes : Nat
  truncated : Bool

/-- The loop: events that were seen are skipped, and the first that does not fit
ends it. -/
def returnWithin (limit : ExpansionLimitV1) (seen : ExtTreeSet EventId) (count bytes : Nat) :
    List Event → Returned
  | [] => ⟨[], bytes, false⟩
  | event :: rest =>
      if event.id ∈ seen then returnWithin limit seen count bytes rest
      else
        match checkedAdd bytes event.raw.length with
        | none => ⟨[], bytes, true⟩
        | some nextBytes =>
            if count = limit.maxEvents ∨ nextBytes > limit.maxBytes then ⟨[], bytes, true⟩
            else
              let returned :=
                returnWithin limit (seen.insert event.id) (count + 1) nextBytes rest
              { returned with events := event :: returned.events }

/-- The bytes of all candidates, unless they overflow. -/
def requiredBytes (total : Nat) : List Event → Option Nat
  | [] => some total
  | event :: rest => do
      let total ← checkedAdd total event.raw.length
      requiredBytes total rest

def expandRetainedResultV1 (ledger : EventLedger) (reference : EvidenceReferenceV1)
    (request : ExpansionRequestV1) (now : UnixTimestampNanos) :
    Except (Fault ResultStoreError) ExpansionResponseV1 :=
  if reference.id ≠ request.referenceId ∨ reference.resultId ≠ request.resultId then
    .error (.err .referenceUnavailable)
  else do
    (reference.authorize request.resultId request.relation now).mapError
      fun _ => Fault.err .referenceUnavailable
    let candidates ← expansionCandidates ledger reference request
    if request.relation = .exact ∧ candidates.length > 1 ∧
        (candidates.length > request.limit.maxEvents ∨
          (requiredBytes 0 candidates).all (· > request.limit.maxBytes)) then
      .error (.err .insufficientExpansionBudget)
    else
      let returned := returnWithin request.limit ∅ 0 0 candidates
      .ok {
        resultId := request.resultId
        referenceId := request.referenceId
        relation := request.relation
        events := returned.events.map .fromEvent
        returnedBytes := returned.bytes
        truncated := returned.truncated }

/-! ## What is returned -/

/-- The bytes of some events. -/
def exactByteCount (events : List Event) : Nat :=
  (events.map (·.raw.length)).sum

theorem requiredBytes_eq_some {events : List Event} : ∀ {total required : Nat},
    total < u64Bound →
      (requiredBytes total events = some required ↔
        total + exactByteCount events < u64Bound ∧ required = total + exactByteCount events) := by
  induction events with
  | nil =>
      intro total required htotal
      rw [requiredBytes, Option.some.injEq, exactByteCount, List.map_nil, List.sum_nil,
        Nat.add_zero]
      exact ⟨fun h => ⟨htotal, h.symm⟩, fun h => h.2.symm⟩
  | cons event rest ih =>
      intro total required _
      rw [requiredBytes, Option.bind_eq_bind, Option.bind_eq_some_iff]
      simp only [checkedAdd_eq_some, exactByteCount, List.map_cons, List.sum_cons]
      constructor
      · rintro ⟨_, ⟨hfits, rfl⟩, hrest⟩
        have hsum := (ih hfits).mp hrest
        unfold exactByteCount at hsum
        omega
      · rintro ⟨hfits, rfl⟩
        refine ⟨_, ⟨by omega, rfl⟩, (ih (by omega)).mpr ?_⟩
        unfold exactByteCount
        omega

/-- What the loop returns of candidates none of which it has seen: a part from
their front, within the limits. -/
structure Fits (limit : ExpansionLimitV1) (count bytes : Nat) (candidates : List Event)
    (returned : Returned) : Prop where
  front : returned.events <+: candidates
  sum : returned.bytes = bytes + exactByteCount returned.events
  bytes_le : bytes ≤ limit.maxBytes → returned.bytes ≤ limit.maxBytes
  count_le : count ≤ limit.maxEvents → count + returned.events.length ≤ limit.maxEvents
  truncated : returned.truncated = true ↔ returned.events ≠ candidates
  full : ∀ next, returned.events ++ [next] <+: candidates →
    limit.maxEvents ≤ count + returned.events.length ∨
      limit.maxBytes < returned.bytes + next.raw.length

/-- A limit that was checked is far from where a `usize` ends. -/
theorem ExpansionLimitV1.maxBytes_lt (limit : ExpansionLimitV1) : limit.maxBytes < u64Bound := by
  have hchecked := limit.checked
  unfold checkExpansionLimit at hchecked
  split at hchecked
  · cases hchecked
  · rename_i hlimit
    simp only [not_or, maxExpansionBytes] at hlimit
    simp only [u64Bound]
    omega

theorem requiredBytes_all {limit : ExpansionLimitV1} {candidates : List Event} :
    (requiredBytes 0 candidates).all (· > limit.maxBytes) = true ↔
      limit.maxBytes < exactByteCount candidates := by
  have hbound := limit.maxBytes_lt
  have hsome (required : Nat) : requiredBytes 0 candidates = some required ↔
      exactByteCount candidates < u64Bound ∧ required = exactByteCount candidates := by
    rw [requiredBytes_eq_some (Nat.two_pow_pos 64), Nat.zero_add]
  cases hrequired : requiredBytes 0 candidates with
  | none =>
      have hover : ¬exactByteCount candidates < u64Bound := by
        intro hlt
        rw [(hsome _).mpr ⟨hlt, rfl⟩] at hrequired
        cases hrequired
      exact ⟨fun _ => by omega, fun _ => rfl⟩
  | some required =>
      obtain ⟨_, rfl⟩ := (hsome _).mp hrequired
      rw [Option.all_some, decide_eq_true_eq]

theorem returnWithin_fits {limit : ExpansionLimitV1} {candidates : List Event} :
    ∀ {seen : ExtTreeSet EventId} {count bytes : Nat},
      (candidates.map (·.id)).Nodup → (∀ event ∈ candidates, event.id ∉ seen) →
        Fits limit count bytes candidates (returnWithin limit seen count bytes candidates) := by
  induction candidates with
  | nil =>
      intro seen count bytes _ _
      refine ⟨List.prefix_refl _, rfl, id, id, by simp [returnWithin], fun next hnext => ?_⟩
      have hlength := hnext.length_le
      simp [returnWithin] at hlength
  | cons event rest ih =>
      intro seen count bytes hnodup hfresh
      have hstop (hover : count = limit.maxEvents ∨ limit.maxBytes < bytes + event.raw.length) :
          Fits limit count bytes (event :: rest) ⟨[], bytes, true⟩ := by
        refine ⟨List.nil_prefix, rfl, id, id, by simp, fun next hnext => ?_⟩
        obtain rfl : next = event := (List.cons_prefix_cons.mp hnext).1
        exact hover.imp (fun hfull => hfull.ge) id
      obtain ⟨hnew, hrest⟩ := List.nodup_cons.mp hnodup
      rw [returnWithin, if_neg (hfresh event (List.mem_cons_self ..))]
      split
      · rename_i hoverflow
        have hbound := limit.maxBytes_lt
        have hover : ¬bytes + event.raw.length < u64Bound := by
          intro hlt
          rw [checkedAdd_of_lt hlt] at hoverflow
          cases hoverflow
        exact hstop (.inr (by omega))
      rename_i nextBytes hsum
      obtain ⟨_, rfl⟩ := checkedAdd_eq_some.mp hsum
      split
      · rename_i hover
        exact hstop hover
      rename_i hlimit
      rw [not_or, Nat.not_lt] at hlimit
      have hlater : ∀ later ∈ rest, later.id ∉ seen.insert event.id := by
        intro later hmem hin
        rcases mem_insert_set.mp hin with heq | hin
        · exact hnew (List.mem_map.mpr ⟨later, hmem, heq.symm⟩)
        · exact hfresh later (List.mem_cons_of_mem _ hmem) hin
      obtain ⟨hfront, hbytes, hbytesLe, hcount, htruncated, hfull⟩ :=
        @ih (seen.insert event.id) (count + 1) (bytes + event.raw.length) hrest hlater
      refine ⟨List.cons_prefix_cons.mpr ⟨rfl, hfront⟩, ?_, fun _ => hbytesLe hlimit.2,
        fun hle => ?_, ?_, fun next hnext => ?_⟩
      · rw [hbytes]
        simp only [exactByteCount, List.map_cons, List.sum_cons]
        omega
      · have := hcount (by omega)
        rw [List.length_cons]
        omega
      · rw [htruncated]
        simp
      · rw [List.length_cons, ← Nat.add_assoc, Nat.add_right_comm]
        exact hfull next (List.cons_prefix_cons.mp hnext).2

theorem exactByteCount_append (events events' : List Event) :
    exactByteCount (events ++ events') = exactByteCount events + exactByteCount events' := by
  rw [exactByteCount, List.map_append, List.sum_append]
  rfl

/-- Candidates that fit together are all returned. -/
theorem Fits.events_eq {limit : ExpansionLimitV1} {count bytes : Nat} {candidates : List Event}
    {returned : Returned} (h : Fits limit count bytes candidates returned)
    (hcount : count + candidates.length ≤ limit.maxEvents)
    (hbytes : bytes + exactByteCount candidates ≤ limit.maxBytes) :
    returned.events = candidates := by
  obtain ⟨left, rfl⟩ := h.front
  cases left with
  | nil => exact (List.append_nil _).symm
  | cons next left =>
      have hsum := h.sum
      rw [List.length_append, List.length_cons] at hcount
      rw [exactByteCount_append, exactByteCount, exactByteCount, List.map_cons,
        List.sum_cons] at hbytes
      unfold exactByteCount at hsum
      have hnext : returned.events ++ [next] <+: returned.events ++ next :: left :=
        ⟨left, by rw [List.append_assoc, List.singleton_append]⟩
      obtain hfull | hfull := h.full next hnext <;> omega

/-! ## The candidates -/

/-- What a reference authorizes a reader to see, by the relation that is asked
for: its targets, or what is around its only target. -/
inductive Authorizes (ledger : EventLedger) (reference : EvidenceReferenceV1)
    (limit : ExpansionLimitV1) : ExpansionRelationV1 → List Event → Prop where
  | exact (events : List Event) (mem : ∀ event ∈ events, event ∈ ledger.events)
      (targets : reference.targets = events.map fun event => .event event.id) :
      Authorizes ledger reference limit .exact events
  | globalBeforeAfter (event : Event) (position : Nat)
      (target : reference.targets = [.event event.id])
      (get : ledger.events[position]? = some event) :
      Authorizes ledger reference limit .globalBeforeAfter
        (window ledger.events position limit.before limit.after)
  | sameLaneBeforeAfter (event : Event) (position : Nat)
      (target : reference.targets = [.event event.id])
      (get : (ledger.laneEvents event.lane)[position]? = some event) :
      Authorizes ledger reference limit .sameLaneBeforeAfter
        (window (ledger.laneEvents event.lane) position limit.before limit.after)

section Candidates

variable {ledger : EventLedger} {reference : EvidenceReferenceV1} {request : ExpansionRequestV1}
  {candidates : List Event}

theorem exactTarget_cases (h : ledger.Indexed) (target : EvidenceTargetRef) :
    exactTarget ledger target = .error (.err .referenceUnavailable) ∨
      ∃ event ∈ ledger.events,
        exactTarget ledger target = .ok event ∧ target = .event event.id := by
  cases target with
  | block id => exact .inl rfl
  | event id =>
      simp only [exactTarget, EventLedger.event]
      cases hposition : ledger.positions[id]? with
      | none => exact .inl rfl
      | some position =>
          have hget := (h.positions id position).mp hposition
          rw [List.getElem?_map, Option.map_eq_some_iff] at hget
          obtain ⟨event, hevent, rfl⟩ := hget
          refine .inr ⟨event, List.mem_of_getElem? hevent, ?_, rfl⟩
          simp only [hevent, okOr_some]

theorem exactTarget_event (h : ledger.Indexed) {event : Event} (hevent : event ∈ ledger.events) :
    exactTarget ledger (.event event.id) = .ok event := by
  obtain ⟨hposition, hget⟩ := h.lookup hevent
  simp only [exactTarget, EventLedger.event, hposition, hget, okOr_some]

theorem mapM_exactTarget_map (h : ledger.Indexed) {events : List Event}
    (hevents : ∀ event ∈ events, event ∈ ledger.events) :
    (events.map fun event => EvidenceTargetRef.event event.id).mapM (exactTarget ledger) =
      .ok events := by
  induction events with
  | nil => rfl
  | cons event rest ih =>
      obtain ⟨hevent, hrest⟩ := List.forall_mem_cons.mp hevents
      rw [List.map_cons, List.mapM_cons, exactTarget_event h hevent, except_bind_ok, ih hrest]
      rfl

theorem mapM_exactTarget (h : ledger.Indexed) : ∀ (targets : List EvidenceTargetRef),
    targets.mapM (exactTarget ledger) = .error (.err .referenceUnavailable) ∨
      ∃ events, targets.mapM (exactTarget ledger) = .ok events ∧
        (∀ event ∈ events, event ∈ ledger.events) ∧
        targets = events.map fun event => .event event.id
  | [] => .inr ⟨[], rfl, fun _ hmem => absurd hmem List.not_mem_nil, rfl⟩
  | target :: rest => by
      rw [List.mapM_cons]
      obtain herror | ⟨event, hevent, hok, htarget⟩ := exactTarget_cases h target
      · rw [herror]
        exact .inl rfl
      · obtain hrest | ⟨events, hrest, hevents, hsame⟩ := mapM_exactTarget h rest
        · rw [hok, hrest]
          exact .inl rfl
        · rw [hok, hrest]
          exact .inr ⟨event :: events, rfl, List.forall_mem_cons.mpr ⟨hevent, hevents⟩,
            by rw [htarget, hsame, List.map_cons]⟩

theorem singleEventTarget_cases (reference : EvidenceReferenceV1) :
    singleEventTarget reference = .error (.err .referenceUnavailable) ∨
      ∃ id, singleEventTarget reference = .ok id ∧ reference.targets = [.event id] := by
  unfold singleEventTarget
  split
  · rename_i id htargets
    exact .inr ⟨id, rfl, htargets⟩
  · exact .inl rfl

/-- An anchor is unknown, or the event of the ledger with its id. -/
theorem anchor_cases (h : ledger.Indexed) (anchor : EventId) :
    ledger.positions[anchor]? = none ∨ ∃ event ∈ ledger.events, event.id = anchor := by
  cases hposition : ledger.positions[anchor]? with
  | none => exact .inl rfl
  | some position =>
      have hget := (h.positions anchor position).mp hposition
      rw [List.getElem?_map, Option.map_eq_some_iff] at hget
      obtain ⟨event, hevent, hid⟩ := hget
      exact .inr ⟨event, List.mem_of_getElem? hevent, hid⟩

/-- Candidates are unavailable, or what the reference authorizes. -/
theorem expansionCandidates_cases (h : ledger.Indexed) (hlaned : ledger.Laned)
    (reference : EvidenceReferenceV1) (request : ExpansionRequestV1) :
    expansionCandidates ledger reference request = .error (.err .referenceUnavailable) ∨
      ∃ candidates, expansionCandidates ledger reference request = .ok candidates ∧
        Authorizes ledger reference request.limit request.relation candidates := by
  unfold expansionCandidates
  cases request.relation with
  | exact =>
      obtain herror | ⟨events, hok, hevents, htargets⟩ := mapM_exactTarget h reference.targets
      · exact .inl herror
      · exact .inr ⟨events, hok, .exact events hevents htargets⟩
  | globalBeforeAfter =>
      obtain herror | ⟨anchor, hanchor, htarget⟩ := singleEventTarget_cases reference
      · simp only [herror]
        exact .inl rfl
      simp only [hanchor, except_bind_ok]
      obtain hunknown | ⟨event, hevent, rfl⟩ := anchor_cases h anchor
      · simp only [EventLedger.expand, hunknown]
        exact .inl rfl
      · simp only [EventLedger.expand_eq_window h hlaned hevent]
        exact .inr ⟨_, rfl, .globalBeforeAfter event _ htarget (h.lookup hevent).2⟩
  | sameLaneBeforeAfter =>
      obtain herror | ⟨anchor, hanchor, htarget⟩ := singleEventTarget_cases reference
      · simp only [herror]
        exact .inl rfl
      simp only [hanchor, except_bind_ok]
      obtain hunknown | ⟨event, hevent, rfl⟩ := anchor_cases h anchor
      · simp only [EventLedger.expandSameLane, hunknown]
        exact .inl rfl
      · simp only [EventLedger.expandSameLane_eq_window h hlaned hevent]
        exact .inr ⟨_, rfl, .sameLaneBeforeAfter event _ htarget
          (EventLedger.getElem?_laneOffset h hevent)⟩
  | patternMembers => exact .inl rfl
  | sameAttestedTrace => exact .inl rfl
  | aroundOnset => exact .inl rfl

/-- An event stands once in a list without repeated ids. -/
theorem position_unique {events : List Event} (h : (events.map (·.id)).Nodup) {event : Event}
    {i j : Nat} (hi : events[i]? = some event) (hj : events[j]? = some event) : i = j := by
  refine (List.getElem?_inj (List.getElem?_eq_some_iff.mp hi).1 (List.Nodup.of_map _ h)).mp ?_
  rw [hi, hj]

theorem ids_nodup_laneEvents (h : ledger.Indexed) (lane : LaneKey) :
    ((ledger.laneEvents lane).map (·.id)).Nodup :=
  h.ids_nodup.sublist (List.filter_sublist.map _)

/-- What the reference authorizes is found. -/
theorem Authorizes.candidates_eq (h : ledger.Indexed) (hlaned : ledger.Laned)
    (hauthorizes : Authorizes ledger reference request.limit request.relation candidates) :
    expansionCandidates ledger reference request = .ok candidates := by
  obtain ⟨resultId, referenceId, relation, limit⟩ := request
  cases hauthorizes with
  | exact _ hmem htargets =>
      simp only [expansionCandidates, htargets, mapM_exactTarget_map h hmem]
  | globalBeforeAfter event position htarget hget =>
      have hevent := List.mem_of_getElem? hget
      obtain rfl := position_unique h.ids_nodup hget (h.lookup hevent).2
      simp only [expansionCandidates, singleEventTarget, htarget, except_bind_ok,
        EventLedger.expand_eq_window h hlaned hevent, unavailable]
  | sameLaneBeforeAfter event position htarget hget =>
      have hevent := (List.mem_filter.mp (List.mem_of_getElem? hget)).1
      obtain rfl := position_unique (ids_nodup_laneEvents h event.lane) hget
        (EventLedger.getElem?_laneOffset h hevent)
      simp only [expansionCandidates, singleEventTarget, htarget, except_bind_ok,
        EventLedger.expandSameLane_eq_window h hlaned hevent, unavailable]

/-- What a reference without repeated targets authorizes has distinct ids. -/
theorem Authorizes.nodup_ids (h : ledger.Indexed) (hreference : reference.targets.Nodup)
    {limit : ExpansionLimitV1} {relation : ExpansionRelationV1}
    (hauthorizes : Authorizes ledger reference limit relation candidates) :
    (candidates.map (·.id)).Nodup := by
  have hwindow {events : List Event} (hsub : events.Sublist ledger.events)
      (position before after : Nat) :
      ((window events position before after).map (·.id)).Nodup :=
    h.ids_nodup.sublist (((isInfix_window _ _ _ _).sublist.trans hsub).map _)
  cases hauthorizes with
  | exact _ _ htargets =>
      rw [htargets] at hreference
      exact List.Nodup.of_map EvidenceTargetRef.event (by rwa [List.map_map])
  | globalBeforeAfter => exact hwindow (List.Sublist.refl _) _ _ _
  | sameLaneBeforeAfter => exact hwindow List.filter_sublist _ _ _

end Candidates

/-! ## Expansion is exact -/

section Exact

variable {ledger : EventLedger} {reference : EvidenceReferenceV1} {request : ExpansionRequestV1}
  {now : UnixTimestampNanos} {candidates : List Event}

/-- The request names the reference in its result and its lifetime, and asks for
a relation that the reference allows. -/
structure Granted (reference : EvidenceReferenceV1) (request : ExpansionRequestV1)
    (now : UnixTimestampNanos) : Prop where
  reference_eq : reference.id = request.referenceId
  result_eq : reference.resultId = request.resultId
  issued : reference.issuedAt.get ≤ now.get
  unexpired : now.get < reference.expiresAt.get
  allowed : request.relation ∈ reference.allowedRelations

/-- Several targets that are asked for together do not fit the limit. -/
def OverBudget (request : ExpansionRequestV1) (candidates : List Event) : Prop :=
  request.relation = .exact ∧ 1 < candidates.length ∧
    (request.limit.maxEvents < candidates.length ∨
      request.limit.maxBytes < exactByteCount candidates)

/-- A response returns the candidates from the front, as many as fit. -/
structure Answers (request : ExpansionRequestV1) (candidates : List Event)
    (response : ExpansionResponseV1) : Prop where
  resultId : response.resultId = request.resultId
  referenceId : response.referenceId = request.referenceId
  relation : response.relation = request.relation
  distinct : (response.events.map (·.eventId)).Nodup
  front : ∃ returned left, candidates = returned ++ left ∧
    response.events = returned.map .fromEvent ∧
    response.returnedBytes = exactByteCount returned ∧
    response.returnedBytes ≤ request.limit.maxBytes ∧
    returned.length ≤ request.limit.maxEvents ∧
    (response.truncated = true ↔ left ≠ []) ∧
    (∀ next ∈ left.head?, returned.length = request.limit.maxEvents ∨
      request.limit.maxBytes < exactByteCount (returned ++ [next])) ∧
    (request.relation = .exact → 1 < candidates.length → left = [])

/-- What the loop returns of the candidates answers the request. -/
theorem answers_returnWithin (hnodup : (candidates.map (·.id)).Nodup)
    (hbudget : ¬OverBudget request candidates) :
    Answers request candidates {
      resultId := request.resultId
      referenceId := request.referenceId
      relation := request.relation
      events := (returnWithin request.limit ∅ 0 0 candidates).events.map .fromEvent
      returnedBytes := (returnWithin request.limit ∅ 0 0 candidates).bytes
      truncated := (returnWithin request.limit ∅ 0 0 candidates).truncated } := by
  have hfits := @returnWithin_fits request.limit candidates ∅ 0 0 hnodup (by simp)
  generalize returnWithin request.limit ∅ 0 0 candidates = returned at hfits
  have hcount := hfits.count_le (Nat.zero_le _)
  have hsum := hfits.sum
  rw [Nat.zero_add] at hcount hsum
  refine ⟨rfl, rfl, rfl, ?_, ?_⟩
  · rw [List.map_map]
    exact hnodup.sublist (hfits.front.sublist.map _)
  obtain ⟨left, hleft⟩ := hfits.front
  refine ⟨_, left, hleft.symm, rfl, hsum, hfits.bytes_le (Nat.zero_le _), hcount, ?_, ?_, ?_⟩
  · rw [hfits.truncated]
    nth_rewrite 1 [← hleft]
    simp
  · intro next hnext
    obtain ⟨later, rfl⟩ : ∃ later, left = next :: later := List.head?_eq_some_iff.mp hnext
    have hfull := hfits.full next ⟨later, by rw [← hleft, List.append_assoc, List.singleton_append]⟩
    rw [Nat.zero_add] at hfull
    refine hfull.imp (fun hle => Nat.le_antisymm hcount hle) fun hover => ?_
    rw [exactByteCount_append, ← hsum]
    simpa [exactByteCount] using hover
  · intro hexact hmany
    have hpassed : candidates.length ≤ request.limit.maxEvents ∧
        exactByteCount candidates ≤ request.limit.maxBytes := by
      rw [← Nat.not_lt, ← Nat.not_lt, ← not_or]
      exact fun hover => hbudget ⟨hexact, hmany, hover⟩
    have hall := hfits.events_eq (by rw [Nat.zero_add]; exact hpassed.1)
      (by rw [Nat.zero_add]; exact hpassed.2)
    rw [hall] at hleft
    exact List.append_right_eq_self.mp hleft

variable [Sha256]

/-- An issued reference has distinct targets. -/
theorem EvidenceReferenceV1.Issued.targets_nodup (h : reference.Issued) :
    reference.targets.Nodup := by
  obtain ⟨targets, relations, hissue⟩ := h
  obtain ⟨⟨_, _, hsize, _⟩, htargets, _⟩ :=
    validateMaterial_eq_ok.mp (issue_eq_ok.mp hissue).1
  rw [htargets]
  exact nodup_of_size hsize

theorem expandRetainedResultV1_of_authorizes (h : ledger.Indexed) (hlaned : ledger.Laned)
    (hissued : reference.Issued) (hgranted : Granted reference request now)
    (hauthorizes : Authorizes ledger reference request.limit request.relation candidates) :
    (OverBudget request candidates → expandRetainedResultV1 ledger reference request now =
      .error (.err .insufficientExpansionBudget)) ∧
    (¬OverBudget request candidates → ∃ response,
      expandRetainedResultV1 ledger reference request now = .ok response ∧
        Answers request candidates response) := by
  have hauthorized := hissued.authorize_eq_ok.mpr ⟨hgranted.result_eq, hgranted.issued,
    hgranted.unexpired, hgranted.allowed⟩
  have hbudget : (request.relation = .exact ∧ candidates.length > 1 ∧
      (candidates.length > request.limit.maxEvents ∨
        (requiredBytes 0 candidates).all (· > request.limit.maxBytes) = true)) ↔
      OverBudget request candidates := by
    rw [requiredBytes_all, OverBudget]
  have hnamed : ¬(reference.id ≠ request.referenceId ∨ reference.resultId ≠ request.resultId) :=
    fun hor => hor.elim (· hgranted.reference_eq) (· hgranted.result_eq)
  rw [expandRetainedResultV1, if_neg hnamed, hauthorized]
  simp only [Except.mapError, except_bind_ok, hauthorizes.candidates_eq h hlaned]
  refine ⟨fun hover => if_pos (hbudget.mpr hover),
    fun hover => ⟨_, if_neg fun hboth => hover (hbudget.mp hboth), ?_⟩⟩
  exact answers_returnWithin (hauthorizes.nodup_ids h hissued.targets_nodup) hover

theorem expandRetainedResultV1_unavailable (h : ledger.Indexed) (hlaned : ledger.Laned)
    (hissued : reference.Issued) (hnone : ¬(Granted reference request now ∧
      ∃ candidates, Authorizes ledger reference request.limit request.relation candidates)) :
    expandRetainedResultV1 ledger reference request now = .error (.err .referenceUnavailable) := by
  unfold expandRetainedResultV1
  split_ifs with hforeign
  · rfl
  cases hauthorize : reference.authorize request.resultId request.relation now with
  | error _ => rfl
  | ok _ =>
      obtain ⟨hresult, hstart, hend, hallowed⟩ := hissued.authorize_eq_ok.mp hauthorize
      rw [not_or, not_not, not_not] at hforeign
      obtain herror | ⟨candidates, _, hauthorizes⟩ :=
        expansionCandidates_cases h hlaned reference request
      · rw [herror]
        rfl
      · exact absurd ⟨⟨hforeign.1, hresult, hstart, hend, hallowed⟩, candidates, hauthorizes⟩ hnone

/-- Expansion is exact in every ledger: around an event in the ledger and in its
lane, and from a reference. A request that is granted is answered with the
candidates from the front, or refused if several targets do not fit together;
every other request is unavailable. -/
theorem expansion_exact (ledger : EventLedger) (h : ledger.Obtained) :
    (∀ event ∈ ledger.events, ∀ before after, ∃ position expansion,
      ledger.events[position]? = some event ∧
      ledger.expand event.id before after = .ok expansion ∧ expansion.anchor = event.id ∧
      expansion.events = window ledger.events position before after ∧
      expansion.events[expansion.anchorOffset]? = some event) ∧
    (∀ event ∈ ledger.events, ∀ before after, ∃ position expansion,
      (ledger.laneEvents event.lane)[position]? = some event ∧
      ledger.expandSameLane event.id before after = .ok expansion ∧ expansion.anchor = event.id ∧
      expansion.events = window (ledger.laneEvents event.lane) position before after ∧
      expansion.events[expansion.anchorOffset]? = some event) ∧
    ∀ reference request now, reference.Issued →
      (Granted reference request now → ∀ candidates,
        Authorizes ledger reference request.limit request.relation candidates →
          (OverBudget request candidates → expandRetainedResultV1 ledger reference request now =
            .error (.err .insufficientExpansionBudget)) ∧
          (¬OverBudget request candidates → ∃ response,
            expandRetainedResultV1 ledger reference request now = .ok response ∧
              Answers request candidates response)) ∧
      (¬(Granted reference request now ∧
        ∃ candidates, Authorizes ledger reference request.limit request.relation candidates) →
          expandRetainedResultV1 ledger reference request now =
            .error (.err .referenceUnavailable)) := by
  refine ⟨fun event hevent before after => ?_, fun event hevent before after => ?_,
    fun reference request now hissued => ⟨fun hgranted candidates hauthorizes => ?_, ?_⟩⟩
  · have hget := (h.indexed.lookup hevent).2
    exact ⟨ledger.pos event, _, hget, EventLedger.expand_eq_window h.indexed h.laned hevent _ _,
      rfl, rfl, (getElem?_window before after).trans hget⟩
  · have hget := EventLedger.getElem?_laneOffset h.indexed hevent
    exact ⟨ledger.laneOffset event, _, hget,
      EventLedger.expandSameLane_eq_window h.indexed h.laned hevent _ _, rfl, rfl,
      (getElem?_window before after).trans hget⟩
  · exact expandRetainedResultV1_of_authorizes h.indexed h.laned hissued hgranted hauthorizes
  · exact expandRetainedResultV1_unavailable h.indexed h.laned hissued

end Exact

/-! ## Two lanes and two references -/

namespace Expansion

def oneNano : UnixTimestampNanos := ⟨1, by decide, by decide⟩

/-- The ledger of the lines, a reference to its events and one to its last event. -/
def sampleReferences [Sha256] :
    Option (EventLedger × EvidenceReferenceV1 × EvidenceReferenceV1) := do
  let ledger ← replayLedger twoStreams 4
  let every ← (EvidenceReferenceV1.issue (.repeated 5) (ledger.events.map (.event ·.id)) [.exact]
    .epoch oneNano).toOption
  let last ← (EvidenceReferenceV1.issue (.repeated 5) ((ledger.events.drop 2).map (.event ·.id))
    [.sameLaneBeforeAfter, .exact] .epoch oneNano).toOption
  some (ledger, every, last)

def sampleRequest (reference : EvidenceReferenceV1) (relation : ExpansionRelationV1)
    (limit : ExpansionLimitV1) : ExpansionRequestV1 :=
  ⟨reference.resultId, reference.id, relation, limit⟩

theorem granted_of_issue [Sha256] {resultId : ResultId} {targets : List EvidenceTargetRef}
    {relations : List ExpansionRelationV1} {reference : EvidenceReferenceV1}
    (h : EvidenceReferenceV1.issue resultId targets relations .epoch oneNano = .ok reference)
    {relation : ExpansionRelationV1} (hrelation : relation ∈ relations)
    (limit : ExpansionLimitV1) :
    Granted reference (sampleRequest reference relation limit) .epoch := by
  obtain ⟨hmaterial, _, _, hissued, hexpires⟩ := EvidenceReferenceV1.issue_eq_ok.mp h
  obtain ⟨_, _, hrelations⟩ := EvidenceReferenceV1.validateMaterial_eq_ok.mp hmaterial
  refine ⟨rfl, rfl, ?_, ?_, ?_⟩
  · rw [hissued]
  · rw [hexpires]
    decide
  · rw [hrelations, sampleRequest, ExtTreeSet.mem_toList, ExtTreeSet.mem_ofList]
    exact List.contains_iff_mem.mpr hrelation

theorem targets_of_issue [Sha256] {resultId : ResultId} {targets : List EvidenceTargetRef}
    {relations : List ExpansionRelationV1} {reference : EvidenceReferenceV1}
    (h : EvidenceReferenceV1.issue resultId targets relations .epoch oneNano = .ok reference) :
    reference.targets = targets :=
  (EvidenceReferenceV1.validateMaterial_eq_ok.mp
    (EvidenceReferenceV1.issue_eq_ok.mp h).1).2.1

/-- All events are returned, or none if one more than the limit is asked for; of
the window in the lane the limit leaves one event. Afterwards there is nothing. -/
theorem expansion_exact_two_lanes :
    letI := fips180
    ∃ (ledger : EventLedger) (every last : EvidenceReferenceV1) (anchor : Event),
      ledger.Obtained ∧ ledger.events[2]? = some anchor ∧
      (∃ around, ledger.expand anchor.id 1 1 = .ok around ∧
        around.events[around.anchorOffset]? = some anchor) ∧
      (∃ around, ledger.expandSameLane anchor.id 1 1 = .ok around ∧
        around.events[around.anchorOffset]? = some anchor) ∧
      (∃ response, expandRetainedResultV1 ledger every
          (sampleRequest every .exact ⟨3, 4, 0, 0, rfl⟩) .epoch = .ok response ∧
        response.events = ledger.events.map .fromEvent ∧ response.truncated = false) ∧
      expandRetainedResultV1 ledger every (sampleRequest every .exact ⟨2, 4, 0, 0, rfl⟩) .epoch =
        .error (.err .insufficientExpansionBudget) ∧
      (∃ response, expandRetainedResultV1 ledger last
          (sampleRequest last .sameLaneBeforeAfter ⟨1, 4, 1, 0, rfl⟩) .epoch = .ok response ∧
        response.events.length = 1 ∧ response.truncated = true) ∧
      expandRetainedResultV1 ledger every (sampleRequest every .exact ⟨3, 4, 0, 0, rfl⟩) oneNano =
        .error (.err .referenceUnavailable) := by
  rw [fips180_eq]
  let := fips180Evaluated
  have hrun : sampleReferences.map (fun sample =>
      (sample.1.events.map (·.raw.length), sample.1.events.map fun event =>
        sample.1.events.map fun other => decide (other.lane = event.lane))) =
        some ([1, 2, 1], [[true, false, true], [false, true, false], [true, false, true]]) := by
    decide +kernel
  obtain ⟨sample, hsample, hshape⟩ := Option.map_eq_some_iff.mp hrun
  simp only [sampleReferences, Option.bind_eq_bind, Option.bind_eq_some_iff,
    Option.some.injEq] at hsample
  obtain ⟨ledger, hledger, every, hevery, last, hlast, rfl⟩ := hsample
  have hobtained := obtained_of_replayLedger hledger
  replace hevery := toOption_eq_some.mp hevery
  replace hlast := toOption_eq_some.mp hlast
  obtain ⟨first, second, third, hevents⟩ : ∃ first second third,
      ledger.events = [first, second, third] :=
    List.length_eq_three.mp (by simpa using congrArg (·.1.length) hshape)
  rw [hevents] at hshape hevery hlast
  simp only [List.map_cons, List.map_nil, Prod.mk.injEq, List.cons.injEq, decide_eq_true_eq,
    decide_eq_false_iff_not, and_true, true_and] at hshape
  obtain ⟨⟨hfirst, hsecond, hthird⟩, ⟨_, _⟩, _, hsame, hother⟩ := hshape
  have hlane : ledger.laneEvents third.lane = [first, third] := by
    rw [EventLedger.laneEvents, hevents]
    simp [hsame, hother]
  obtain ⟨hglobal, hlocal, hexpand⟩ := expansion_exact ledger hobtained
  have hmem : third ∈ ledger.events := by simp [hevents]
  obtain ⟨_, around, _, haround, _, _, hanchor⟩ := hglobal third hmem 1 1
  obtain ⟨_, aroundLane, _, haroundLane, _, _, hanchorLane⟩ := hlocal third hmem 1 1
  have hauthorizes : ∀ limit, Authorizes ledger every limit .exact [first, second, third] :=
    fun limit => .exact _ (by simp [hevents]) (targets_of_issue hevery)
  have hbytes : exactByteCount [first, second, third] = 4 := by
    simp [exactByteCount, hfirst, hsecond, hthird]
  refine ⟨ledger, every, last, third, hobtained, by rw [hevents]; rfl, ⟨around, haround, hanchor⟩,
    ⟨aroundLane, haroundLane, hanchorLane⟩, ?_, ?_, ?_, ?_⟩
  · have hgranted := granted_of_issue hevery (List.mem_singleton_self _) ⟨3, 4, 0, 0, rfl⟩
    obtain ⟨response, hresponse, hanswers⟩ := ((hexpand every _ .epoch
      (EvidenceReferenceV1.issued_of_issue hevery)).1 hgranted _ (hauthorizes _)).2
        (by simp [OverBudget, sampleRequest, hbytes])
    obtain ⟨returned, left, hsplit, hreturned, _, _, _, htruncated, _, hall⟩ := hanswers.front
    obtain rfl := hall rfl (by simp)
    rw [List.append_nil] at hsplit
    exact ⟨response, hresponse, by rw [hreturned, ← hsplit, hevents], by simpa using htruncated⟩
  · have hgranted := granted_of_issue hevery (List.mem_singleton_self _) ⟨2, 4, 0, 0, rfl⟩
    exact ((hexpand every _ .epoch (EvidenceReferenceV1.issued_of_issue hevery)).1 hgranted _
      (hauthorizes _)).1 ⟨rfl, Nat.le_add_left 2 1, .inl (Nat.le_refl 3)⟩
  · have hgranted := granted_of_issue hlast (List.mem_cons_self ..) ⟨1, 4, 1, 0, rfl⟩
    have hwindow : Authorizes ledger last ⟨1, 4, 1, 0, rfl⟩ .sameLaneBeforeAfter
        (window (ledger.laneEvents third.lane) 1 1 0) :=
      .sameLaneBeforeAfter third 1 (targets_of_issue hlast) (by rw [hlane]; rfl)
    have hboth : window (ledger.laneEvents third.lane) 1 1 0 = [first, third] := by
      rw [hlane]
      rfl
    rw [hboth] at hwindow
    obtain ⟨response, hresponse, hanswers⟩ := ((hexpand last _ .epoch
      (EvidenceReferenceV1.issued_of_issue hlast)).1 hgranted _ hwindow).2 fun h => by cases h.1
    obtain ⟨returned, left, hsplit, hreturned, _, _, hcount, htruncated, hfull, _⟩ := hanswers.front
    refine ⟨response, hresponse, ?_⟩
    rw [htruncated, hreturned, List.length_map]
    -- one event fits, and the second is over the limit
    rcases returned with _ | ⟨event, _ | ⟨event', returned⟩⟩
    · obtain rfl : left = [first, third] := hsplit.symm
      obtain hfew | hmany := hfull first rfl
      · cases hfew
      · simp [exactByteCount, hfirst, sampleRequest] at hmany
    · refine ⟨rfl, ?_⟩
      rintro rfl
      cases hsplit
    · exact absurd hcount (by simp [sampleRequest])
  · exact (hexpand every _ oneNano (EvidenceReferenceV1.issued_of_issue hevery)).2
      fun hboth => absurd hboth.1.unexpired (by
        rw [(EvidenceReferenceV1.issue_eq_ok.mp hevery).2.2.2.2]
        decide)

end Expansion

end Evidentrail
