import Evidentrail.Corpus.Pages
import Evidentrail.Lib.RoundRobin
import Evidentrail.Lib.Sort

/-!
# Sampling severe groups

Where the terms of a question match nothing, a bounded sample of the severe
groups takes their place: the newest and the oldest, groups from eight places
in between and representatives of single services, taken in turn. For one
service the sample is taken from both ends.
-/

namespace Evidentrail

open Rust RoundRobin

structure CandidateGroupPage where
  groups : List CorpusGroupCard
  totalGroups : Nat
  candidatePoolTruncated : Bool

/-- The selected columns of a row. -/
def LogGroup.card (group : LogGroup) : CorpusGroupCard where
  groupId := group.groupId
  service := group.key.service
  role := group.key.role
  tally := group.tally

def CorpusGroupCard.lastTimestampMillis (card : CorpusGroupCard) : Int :=
  (ofLex card.tally.last).1

/-- `i64::try_from`. -/
def i64TryFrom (n : Int) : Option Int :=
  if -2 ^ 63 ≤ n ∧ n < 2 ^ 63 then some n else none

/-- `ORDER BY last_timestamp_millis, group_id`, in one direction or the other. -/
def inTimeOrder (newestFirst : Bool) (groups : List LogGroup) : List LogGroup :=
  if newestFirst then groups.insertionSort fun a b => b.newest ≤ a.newest
  else groups.insertionSort fun a b => a.newest ≤ b.newest

namespace Tables

/-- `WHERE role IN ('critical', 'error', 'warning')`. -/
def severeGroups (t : Tables) : List LogGroup :=
  t.logGroups.filter fun group => isSevere group.key.role

/-! ## The streams -/

def readSevereGroups (t : Tables) (limit : Nat) (newestFirst : Bool) :
    Except (Fault CorpusError) (List CorpusGroupCard) :=
  if limit = 0 then .ok []
  else do
    let _ ← okOr (.err .storage) (i64TryFrom limit)
    .ok (((inTimeOrder newestFirst t.severeGroups).take limit).map LogGroup.card)

def readSevereGroupsFromTime (t : Tables) (atOrAfterMillis : Int) (limit : Nat) :
    Except (Fault CorpusError) (List CorpusGroupCard) :=
  if limit = 0 then .ok []
  else do
    let _ ← okOr (.err .storage) (i64TryFrom limit)
    let rows := t.severeGroups.filter fun group =>
      atOrAfterMillis ≤ (ofLex group.tally.last).1
    .ok (((inTimeOrder false rows).take limit).map LogGroup.card)

def readSevereGroupsForService (t : Tables) (service : String) (limit : Nat)
    (newestFirst : Bool) : List CorpusGroupCard :=
  ((inTimeOrder newestFirst (t.logGroups.filter (LogGroup.isSevereOf service))).take limit).map
    LogGroup.card

def readGroupById (t : Tables) (groupId : Nat) : Except (Fault CorpusError) CorpusGroupCard :=
  (okOr (.err .storage) (Table.find LogGroup.groupId t.logGroups groupId)).map LogGroup.card

/-- `ORDER BY group_count, service`; text is compared byte by byte. -/
def SevereServiceGroup.rank (row : SevereServiceGroup) : Nat ×ₗ List UInt8 :=
  toLex (row.groupCount, Utf8.asBytes row.service)

def servicesInCountOrder (descending : Bool) (rows : List SevereServiceGroup) :
    List SevereServiceGroup :=
  if descending then rows.insertionSort fun a b =>
    SevereServiceGroup.rank b ≤ SevereServiceGroup.rank a
  else rows.insertionSort fun a b => SevereServiceGroup.rank a ≤ SevereServiceGroup.rank b

/-- The distinct ids of the oldest and the newest group of rare and of common
services. -/
def representativeIds (t : Tables) (serviceLimit : Nat) : List Nat :=
  let rareCount := (serviceLimit + 1) / 2
  let commonCount := serviceLimit / 2
  let rows := (servicesInCountOrder false t.severeServiceGroups).take rareCount ++
    (servicesInCountOrder true t.severeServiceGroups).take commonCount
  (rows.flatMap fun row => [row.oldestGroupId, row.newestGroupId]).foldl
    (fun ids id => if id ∈ ids then ids else ids ++ [id]) []

def readSevereServiceRepresentatives (t : Tables) (serviceLimit : Nat) :
    Except (Fault CorpusError) (List CorpusGroupCard) :=
  (t.representativeIds serviceLimit).mapM t.readGroupById

/-! ## The two searches -/

/-- The places between the first and the last timestamp, in ninths. -/
def anchorParts : List Int := [4, 2, 6, 1, 3, 5, 7, 8]

def readAnchor (t : Tables) (minTimestamp maxTimestamp : Int) (perAnchor : Nat) (part : Int) :
    Except (Fault CorpusError) (List CorpusGroupCard) := do
  let anchor ← okOr (.err .storage)
    (i64TryFrom (minTimestamp + Int.tdiv ((maxTimestamp - minTimestamp) * part) 9))
  t.readSevereGroupsFromTime anchor perAnchor

/-- Streams in turn, and then what is left of the newest groups. -/
def fillSample (limit : Nat) (streams : List (List CorpusGroupCard))
    (remainingRecent groups : List CorpusGroupCard) : List CorpusGroupCard :=
  let start : Picked CorpusGroupCard Nat := ⟨groups, groups.map CorpusGroupCard.groupId⟩
  match merge CorpusGroupCard.groupId limit streams start with
  | (picked, true) => picked.items
  | (picked, false) =>
      (offerAll CorpusGroupCard.groupId limit remainingRecent picked).1.items

def searchPriorityGroups (t : Tables) (limit : Nat) :
    Except (Fault CorpusError) CandidateGroupPage :=
  if limit = 0 ∨ 256 < limit then .error (.err .invalidPageBudget)
  else do
    let totalGroups := t.logGroups.length
    let newest ← t.readSevereGroups (limit + 1) true
    if newest.length ≤ limit then .ok ⟨newest, totalGroups, false⟩
    else if limit = 1 then .ok ⟨newest.take 1, totalGroups, true⟩
    else do
      let endBudget := max (limit / 3) 1
      let first ← okOr .panicked newest.head?
      let maxTimestamp := first.lastTimestampMillis
      -- `split_off` past the end panics
      let remainingRecent ← okOr .panicked
        (if endBudget ≤ newest.length then some (newest.drop endBudget) else none)
      let newest := newest.take endBudget
      let oldest ← t.readSevereGroups endBudget false
      let last ← okOr .panicked oldest.head?
      let minTimestamp := last.lastTimestampMillis
      let interiorBudget := limit - (newest.length + oldest.length)
      let perAnchor := (interiorBudget + 7) / 8
      let anchors ← anchorParts.mapM (t.readAnchor minTimestamp maxTimestamp perAnchor)
      let groups ← t.readSevereServiceRepresentatives (min (max (limit / 8) 1) 32)
      if limit ≤ groups.length then .ok ⟨groups.take limit, totalGroups, true⟩
      else
        .ok ⟨fillSample limit (oldest :: newest :: anchors) remainingRecent groups, totalGroups,
          true⟩

def searchSevereServiceGroups (t : Tables) (service : String) (limit : Nat) :
    Except CorpusError CandidateGroupPage :=
  if service.isEmpty ∨ 256 < (Utf8.asBytes service).length ∨ limit = 0 ∨ 64 < limit then
    .error .invalidPageBudget
  else
    match Table.find SevereServiceGroup.service t.severeServiceGroups service with
    | none => .ok ⟨[], 0, false⟩
    | some row =>
        let perEnd := (limit + 1) / 2
        let oldest := t.readSevereGroupsForService service perEnd false
        let newest := t.readSevereGroupsForService service perEnd true
        let picked := merge CorpusGroupCard.groupId limit [oldest, newest] {}
        .ok ⟨picked.1.items, row.groupCount, limit < row.groupCount⟩

end Tables

end Evidentrail
