import Evidentrail.Corpus.Sampling
import Evidentrail.Lib.Loop

/-!
# Samples of severe groups are full

The newest groups alone are enough to fill a sample, so it comes out full
however the streams overlap. The streams of one service are the two ends of
one order: together they hold all of its groups or at least as many as the
sample takes.
-/

namespace Evidentrail

open Rust RoundRobin

/-! ## One order, from both ends -/

theorem perm_inTimeOrder (newestFirst : Bool) (groups : List LogGroup) :
    (inTimeOrder newestFirst groups).Perm groups := by
  unfold inTimeOrder
  split <;> exact List.perm_insertionSort _ _

theorem nodup_newest {groups : List LogGroup} (h : (groups.map LogGroup.groupId).Nodup) :
    (groups.map LogGroup.newest).Nodup := by
  rw [List.Nodup, List.pairwise_map] at h ⊢
  refine h.imp fun {a b} hne heq => hne ?_
  exact congrArg (fun key : Int ×ₗ Nat => (ofLex key).2) heq

theorem pairwise_inTimeOrder {groups : List LogGroup} (h : (groups.map LogGroup.groupId).Nodup) :
    (inTimeOrder false groups).Pairwise fun a b => a.newest < b.newest :=
  Sorting.pairwise_lt_insertionSort _ (nodup_newest h)

/-- Newest first is the reverse of oldest first. -/
theorem inTimeOrder_true {groups : List LogGroup} (h : (groups.map LogGroup.groupId).Nodup) :
    inTimeOrder true groups = (inTimeOrder false groups).reverse := by
  have hsorted : (inTimeOrder false groups).reverse.Pairwise fun a b =>
      OrderDual.toDual a.newest < OrderDual.toDual b.newest := by
    rw [List.pairwise_reverse]
    exact pairwise_inTimeOrder h
  exact Sorting.insertionSort_eq_of_pairwise
    (fun group : LogGroup => OrderDual.toDual group.newest) hsorted
    ((perm_inTimeOrder false groups).symm.trans (List.reverse_perm _).symm)

/-- A list of cards of distinct groups among these. -/
structure DistinctCards (groups : List LogGroup) (sample : List CorpusGroupCard) : Prop where
  nodup : (sample.map CorpusGroupCard.groupId).Nodup
  cards : ∀ card ∈ sample, ∃ group ∈ groups, card = group.card

theorem DistinctCards.sublist {groups : List LogGroup} {cards cards' : List CorpusGroupCard}
    (h : DistinctCards groups cards) (hsub : cards'.Sublist cards) :
    DistinctCards groups cards' :=
  ⟨(hsub.map _).nodup h.nodup, fun card hcard => h.cards card (hsub.subset hcard)⟩

theorem distinctCards_inTimeOrder {groups : List LogGroup}
    (h : (groups.map LogGroup.groupId).Nodup) (newestFirst : Bool) (count : Nat) :
    DistinctCards groups (((inTimeOrder newestFirst groups).take count).map LogGroup.card) := by
  have hall : DistinctCards groups ((inTimeOrder newestFirst groups).map LogGroup.card) := by
    have hperm := perm_inTimeOrder newestFirst groups
    constructor
    · rw [List.map_map]
      exact ((hperm.map LogGroup.groupId).nodup_iff).mpr h
    · intro card hcard
      obtain ⟨group, hgroup, rfl⟩ := List.mem_map.mp hcard
      exact ⟨group, hperm.subset hgroup, rfl⟩
  exact hall.sublist ((List.take_sublist ..).map _)

theorem length_inTimeOrder (newestFirst : Bool) (groups : List LogGroup) :
    (inTimeOrder newestFirst groups).length = groups.length :=
  (perm_inTimeOrder newestFirst groups).length_eq

/-- As many cards of distinct groups as there are groups, up to the limit. -/
structure IsSample (groups : List LogGroup) (limit : Nat) (sample : List CorpusGroupCard) : Prop
    extends DistinctCards groups sample where
  length : sample.length = min limit groups.length

/-! ## The two ends of a service -/

/-- The first and the last of an order, without what both hold twice. -/
theorem ends_pool {α : Type*} (list : List α) (k : Nat) :
    ∃ pool : List α, pool.Sublist list ∧
      (∀ a ∈ pool, a ∈ list.take k ∨ a ∈ list.reverse.take k) ∧
      pool.length = min list.length (2 * k) := by
  refine ⟨list.take k ++ list.drop (max k (list.length - k)), ?_, ?_, ?_⟩
  · have hsplit := List.take_append_drop k list
    have hdrop : (list.drop (max k (list.length - k))).Sublist (list.drop k) :=
      List.drop_sublist_drop_left list (Nat.le_max_left ..)
    calc (list.take k ++ list.drop (max k (list.length - k))).Sublist
          (list.take k ++ list.drop k) := hdrop.append_left _
      _ = list := hsplit
  · intro a ha
    rcases List.mem_append.mp ha with ha | ha
    · exact .inl ha
    · right
      rw [List.take_reverse, List.mem_reverse]
      exact (List.drop_sublist_drop_left list (Nat.le_max_right ..)).subset ha
  · simp only [List.length_append, List.length_take, List.length_drop]
    omega

/-- The cards at one end of the order. -/
def endCards (groups : List LogGroup) (k : Nat) (newestFirst : Bool) : List CorpusGroupCard :=
  ((inTimeOrder newestFirst groups).take k).map LogGroup.card

def IsCardOf (groups : List LogGroup) (card : CorpusGroupCard) : Prop :=
  ∃ group ∈ groups, card = group.card

theorem sound_start {groups : List LogGroup} {sample : List CorpusGroupCard}
    (h : DistinctCards groups sample) :
    Picked.Sound CorpusGroupCard.groupId (IsCardOf groups)
      ⟨sample, sample.map CorpusGroupCard.groupId⟩ :=
  ⟨h.nodup, fun _ => Iff.rfl, h.cards⟩

/-- What both ends of an order offer to a sample fills it. -/
theorem isSample_of_ends {groups : List LogGroup} (h : (groups.map LogGroup.groupId).Nodup)
    {limit k : Nat} (hlimit : 0 < limit) (hk : limit ≤ 2 * k) :
    IsSample groups limit (merge CorpusGroupCard.groupId limit
      [endCards groups k false, endCards groups k true] {}).1.items := by
  have hstart := @sound_start groups [] ⟨List.nodup_nil, by simp⟩
  have hcards : ∀ card ∈ [endCards groups k false, endCards groups k true].flatten,
      IsCardOf groups card := by
    intro card hcard
    simp only [List.flatten_cons, List.flatten_nil, List.append_nil, List.mem_append] at hcard
    exact hcard.elim ((distinctCards_inTimeOrder h false k).cards card)
      ((distinctCards_inTimeOrder h true k).cards card)
  have hoffered := offered_merge hstart hcards hlimit
  simp only [List.map_nil] at hoffered
  obtain ⟨pool, hsub, hends, hlength⟩ := ends_pool (inTimeOrder false groups) k
  have hpoolNodup : ((pool.map LogGroup.card).map CorpusGroupCard.groupId).Nodup := by
    rw [List.map_map]
    refine (hsub.map LogGroup.groupId).nodup ?_
    exact ((perm_inTimeOrder false groups).map LogGroup.groupId).nodup_iff.mpr h
  have hpool : ∀ card ∈ pool.map LogGroup.card, card.groupId ∈ ([] : List Nat) ∨
      card ∈ [endCards groups k false, endCards groups k true].flatten := by
    intro card hcard
    obtain ⟨group, hgroup, rfl⟩ := List.mem_map.mp hcard
    simp only [endCards, inTimeOrder_true h, List.flatten_cons, List.flatten_nil,
      List.append_nil, List.mem_append]
    exact .inr ((hends group hgroup).imp List.mem_map_of_mem List.mem_map_of_mem)
  have hle := hoffered.sound.length_le (l := groups.map LogGroup.card)
    fun card ⟨group, hgroup, hcard⟩ => hcard ▸ List.mem_map_of_mem hgroup
  rw [List.length_map] at hle
  rw [length_inTimeOrder] at hlength
  refine ⟨⟨hoffered.sound.nodup, hoffered.sound.holds⟩, ?_⟩
  cases hfull : (merge CorpusGroupCard.groupId limit
      [endCards groups k false, endCards groups k true] {}).2 with
  | true =>
      rw [hoffered.full hfull] at hle ⊢
      omega
  | false =>
      have hlt := (hoffered.unfilled hfull).1
      have hge := hoffered.pool_le hpoolNodup hpool hfull
      rw [List.length_map] at hge
      omega

/-! ## The states that pages lead to -/

/-- A record as the source holds it, whose timestamp is an `i64`. -/
structure TimedRecord where
  record : HistoryRecordV1
  lower : -2 ^ 63 ≤ record.eventTimestampMillis
  upper : record.eventTimestampMillis < 2 ^ 63

def InI64 (n : Int) : Prop := -2 ^ 63 ≤ n ∧ n < 2 ^ 63

section Reachable

variable [Sha256] [LogModel] [Rowids]

/-- The store after pages of such records. -/
def storeAfter (pages : List (Option CorpusError × List TimedRecord)) : Tables :=
  Tables.commitPages {} (pages.map fun page => (page.1, page.2.map TimedRecord.record))

def Tables.Timed (t : Tables) : Prop :=
  ∀ record ∈ t.historyRecords, InI64 record.eventTimestampMillis

theorem Tables.Timed.commitRecord {t t' : Tables} {record : HistoryRecordV1} (h : t.Timed)
    (hrecord : InI64 record.eventTimestampMillis) (hcommit : commitRecord t record = .ok t') :
    t'.Timed := by
  rcases commitRecord_ok hcommit with ⟨-, rfl⟩ | ⟨-, indexed, hindex, hedge⟩
  · exact h
  · have hsame : t'.historyRecords = t.historyRecords ++ [record] := by
      have hindexed := historyRecords_indexNewRecord hindex
      have hdrawn : t'.historyRecords = indexed.historyRecords := by
        rcases indexNewEdge_ok hedge with ⟨rfl, -⟩ | ⟨_, _, -, -, -, rfl⟩ <;> rfl
      rw [hdrawn, hindexed]
    intro found hfound
    rw [hsame] at hfound
    rcases List.mem_append.mp hfound with hold | hnew
    · exact h found hold
    · rwa [List.mem_singleton.mp hnew]

theorem Tables.Timed.commitRecords : ∀ {records : List TimedRecord} {t t' : Tables}, t.Timed →
    (records.map TimedRecord.record).foldlM Evidentrail.commitRecord t = .ok t' → t'.Timed
  | [], t, t', h, hcommit => by
      cases hcommit
      exact h
  | record :: rest, t, t', h, hcommit => by
      rw [List.map_cons, List.foldlM_cons] at hcommit
      obtain ⟨next, hnext, hcommit⟩ := except_bind_eq_ok.mp hcommit
      exact commitRecords (h.commitRecord ⟨record.lower, record.upper⟩ hnext) hcommit

theorem Tables.Timed.commitPages : ∀ {pages : List (Option CorpusError × List TimedRecord)}
    {t : Tables}, t.Timed →
    (t.commitPages (pages.map fun page => (page.1, page.2.map TimedRecord.record))).Timed
  | [], _, h => h
  | page :: rest, t, h => by
      refine commitPages (t := (commitPageChecked page.1 t
        (page.2.map TimedRecord.record)).2) ?_
      rcases commitPage_cases page.1 t (page.2.map TimedRecord.record) with
        ⟨t', hcommit, hpage⟩ | ⟨e, hpage⟩
      · rw [hpage]
        exact h.commitRecords hcommit
      · rw [hpage]
        exact h

/-- What sampling relies on: group ids tell groups apart, their timestamps are
`i64`, and the summaries of services are those of their severe groups. -/
structure Tables.Sampleable (t : Tables) : Prop where
  ids : (t.logGroups.map LogGroup.groupId).Nodup
  timed : ∀ group ∈ t.logGroups, InI64 (ofLex group.tally.last).1
  index : t.DerivedIndex

theorem sampleable_storeAfter (pages : List (Option CorpusError × List TimedRecord)) :
    (storeAfter pages).Sampleable := by
  have hconsistent : (storeAfter pages).Consistent :=
    Tables.commitPages_keeps Tables.Consistent.commitRecord _ Tables.consistent_empty
  have hindex : (storeAfter pages).DerivedIndex := (pages_derive_index _).1
  have htimed : (storeAfter pages).Timed :=
    Tables.Timed.commitPages (t := {}) fun record hrecord => by cases hrecord
  refine ⟨hconsistent.grouped.ids, fun group hgroup => ?_, hindex⟩
  obtain ⟨record, hrecord, -, -, -, -, hkey⟩ := (hindex.groupLast group hgroup).1
  rw [← hkey]
  exact htimed record hrecord

end Reachable

/-! ## One service -/

theorem nodup_ids_filter {groups : List LogGroup} (h : (groups.map LogGroup.groupId).Nodup)
    (p : LogGroup → Bool) : ((groups.filter p).map LogGroup.groupId).Nodup :=
  (List.filter_sublist.map _).nodup h

/-- A service search returns a full sample and the true number of groups. -/
theorem Tables.Sampleable.searchSevereServiceGroups_eq {t : Tables} (h : t.Sampleable)
    {service : String} {limit : Nat} (hservice : service.isEmpty = false)
    (hbytes : (Utf8.asBytes service).length ≤ 256) (hpos : 0 < limit) (hle : limit ≤ 64) :
    ∃ page, t.searchSevereServiceGroups service limit = .ok page ∧
      IsSample (t.logGroups.filter (LogGroup.isSevereOf service)) limit page.groups ∧
      page.totalGroups = (t.logGroups.filter (LogGroup.isSevereOf service)).length ∧
      (page.candidatePoolTruncated = true ↔
        limit < (t.logGroups.filter (LogGroup.isSevereOf service)).length) := by
  have hadmitted : ¬ (service.isEmpty = true ∨ 256 < (Utf8.asBytes service).length ∨ limit = 0 ∨
      64 < limit) := by
    rw [hservice]
    simp only [Bool.false_eq_true, false_or]
    omega
  unfold searchSevereServiceGroups
  rw [if_neg hadmitted]
  cases hfind : Table.find SevereServiceGroup.service t.severeServiceGroups service with
  | none =>
      have hnone : t.logGroups.filter (LogGroup.isSevereOf service) = [] := by
        have hrows := h.index.severeRows service
        rw [List.countP_eq_zero.mpr fun row hrow => by
          simpa using Table.find_eq_none.mp hfind row hrow] at hrows
        rw [List.filter_eq_nil_iff]
        intro group hgroup hsevere
        rw [if_pos (List.any_eq_true.mpr ⟨group, hgroup, hsevere⟩)] at hrows
        cases hrows
      exact ⟨_, rfl, ⟨⟨List.nodup_nil, by simp⟩, by simp [hnone]⟩, by simp [hnone],
        by simp [hnone]⟩
  | some row =>
      obtain ⟨hrow, rfl⟩ := Table.mem_of_find hfind
      have hcount := h.index.severeCounts row hrow
      rw [List.countP_eq_length_filter] at hcount
      exact ⟨_, rfl, isSample_of_ends (nodup_ids_filter h.ids _) hpos (by omega), hcount,
        by rw [← hcount]; exact decide_eq_true_iff⟩

/-! ## The whole history -/

theorem i64TryFrom_eq {n : Int} (h : InI64 n) : i64TryFrom n = some n := if_pos h

theorem inI64_small {n : Nat} (h : n ≤ 257) : InI64 n := by
  unfold InI64
  omega

theorem Tables.readSevereGroups_eq (t : Tables) {limit : Nat} (h : limit ≤ 257)
    (newestFirst : Bool) :
    t.readSevereGroups limit newestFirst = .ok (endCards t.severeGroups limit newestFirst) := by
  unfold readSevereGroups endCards
  split
  · rename_i hzero
    simp [hzero]
  · rw [i64TryFrom_eq (inI64_small h)]
    rfl

theorem length_endCards (groups : List LogGroup) (k : Nat) (newestFirst : Bool) :
    (endCards groups k newestFirst).length = min k groups.length := by
  rw [endCards, List.length_map, List.length_take, length_inTimeOrder]

theorem head?_endCards (groups : List LogGroup) {k : Nat} (hk : 0 < k) (newestFirst : Bool) :
    (endCards groups k newestFirst).head? =
      (inTimeOrder newestFirst groups).head?.map LogGroup.card := by
  rw [endCards, List.head?_map, List.head?_take, if_neg hk.ne']

/-- The oldest group comes first. -/
theorem oldest_le {groups : List LogGroup} (h : (groups.map LogGroup.groupId).Nodup)
    {oldest group : LogGroup} (holdest : (inTimeOrder false groups).head? = some oldest)
    (hgroup : group ∈ groups) : (ofLex oldest.tally.last).1 ≤ (ofLex group.tally.last).1 := by
  have hsorted := pairwise_inTimeOrder h
  obtain ⟨rest, hrest⟩ := List.head?_eq_some_iff.mp holdest
  have hmem := (perm_inTimeOrder false groups).mem_iff.mpr hgroup
  rw [hrest] at hsorted hmem
  rcases List.mem_cons.mp hmem with rfl | hin
  · exact le_refl _
  · have hlt := (List.pairwise_cons.mp hsorted).1 group hin
    exact Prod.Lex.monotone_fst oldest.newest group.newest hlt.le

/-- Every place between two `i64` is one. -/
theorem inI64_anchor {low high part : Int} (hlow : InI64 low) (hhigh : InI64 high)
    (hle : low ≤ high) (hpart : part ∈ Tables.anchorParts) :
    InI64 (low + Int.tdiv ((high - low) * part) 9) := by
  have hparts : ∀ part ∈ Tables.anchorParts, 0 ≤ part ∧ part ≤ 9 := by decide
  obtain ⟨hpart0, hpart9⟩ := hparts part hpart
  have hspan : 0 ≤ high - low := by omega
  have hnonneg : 0 ≤ (high - low) * part := Int.mul_nonneg hspan hpart0
  have hupper : (high - low) * part ≤ (high - low) * 9 :=
    Int.mul_le_mul_of_nonneg_left hpart9 hspan
  rw [Int.tdiv_eq_ediv_of_nonneg hnonneg]
  unfold InI64 at *
  omega

theorem nodup_foldl_new {α : Type*} [DecidableEq α] : ∀ (list kept : List α), kept.Nodup →
    (list.foldl (fun kept a => if a ∈ kept then kept else kept ++ [a]) kept).Nodup ∧
      ∀ a ∈ list.foldl (fun kept a => if a ∈ kept then kept else kept ++ [a]) kept,
        a ∈ kept ∨ a ∈ list
  | [], kept, h => ⟨h, fun _ ha => .inl ha⟩
  | a :: rest, kept, h => by
      have hkept : (if a ∈ kept then kept else kept ++ [a]).Nodup := by
        split
        · exact h
        · rename_i hnew
          exact h.append (List.nodup_singleton a) (List.disjoint_singleton.mpr hnew)
      obtain ⟨hnodup, hall⟩ := nodup_foldl_new rest _ hkept
      refine ⟨hnodup, fun b hb => ?_⟩
      rcases hall b hb with hb | hb
      · split at hb
        · exact .inl hb
        · rcases List.mem_append.mp hb with hb | hb
          · exact .inl hb
          · exact .inr (List.mem_cons.mpr (.inl (List.mem_singleton.mp hb)))
      · exact .inr (List.mem_cons_of_mem _ hb)

/-- Streams and a rest that together hold more than enough groups fill the
sample. -/
theorem isSample_fillSample {groups : List LogGroup} {limit : Nat}
    {streams : List (List CorpusGroupCard)} {rest cards pool : List CorpusGroupCard}
    (hcards : DistinctCards groups cards) (hlt : cards.length < limit)
    (hmany : limit < groups.length)
    (hstreams : ∀ card ∈ streams.flatten, IsCardOf groups card)
    (hrest : ∀ card ∈ rest, IsCardOf groups card) (hpool : DistinctCards groups pool)
    (hlimit : limit ≤ pool.length)
    (hheld : ∀ card ∈ pool, card ∈ streams.flatten ∨ card ∈ rest) :
    IsSample groups limit (Tables.fillSample limit streams rest cards) := by
  have hmerged := offered_merge (sound_start hcards) hstreams hlt
  unfold Tables.fillSample
  simp only
  cases hmerge : merge CorpusGroupCard.groupId limit streams
      ⟨cards, cards.map CorpusGroupCard.groupId⟩ with
  | mk picked full =>
      rw [hmerge] at hmerged
      cases full with
      | true =>
          refine ⟨⟨hmerged.sound.nodup, hmerged.sound.holds⟩, ?_⟩
          have hfull := hmerged.full rfl
          simp only at hfull ⊢
          omega
      | false =>
          obtain ⟨hopen, hseen⟩ := hmerged.unfilled rfl
          have hoffered := offered_offerAll hmerged.sound hrest hopen
          have hfilled := hoffered.full_of_pool hpool.nodup
            (fun card hcard => (hheld card hcard).imp_left (hseen card)) hlimit
          have hfull := hoffered.full hfilled
          refine ⟨⟨hoffered.sound.nodup, hoffered.sound.holds⟩, ?_⟩
          simp only at hfull ⊢
          omega

theorem Tables.readAnchor_eq (t : Tables) {low high part : Int} {perAnchor : Nat}
    (hlow : InI64 low) (hhigh : InI64 high) (hle : low ≤ high) (hper : perAnchor ≤ 257)
    (hpart : part ∈ anchorParts) :
    ∃ cards, t.readAnchor low high perAnchor part = .ok cards ∧
      ∀ card ∈ cards, IsCardOf t.severeGroups card := by
  unfold readAnchor readSevereGroupsFromTime
  rw [i64TryFrom_eq (inI64_anchor hlow hhigh hle hpart), i64TryFrom_eq (inI64_small hper)]
  by_cases hzero : perAnchor = 0
  · exact ⟨[], by simp [okOr, hzero, bind, Except.bind], by simp⟩
  · refine ⟨_, if_neg hzero, fun card hcard => ?_⟩
    obtain ⟨group, hgroup, rfl⟩ := List.mem_map.mp hcard
    have hin := (perm_inTimeOrder false _).subset (List.mem_of_mem_take hgroup)
    exact ⟨group, List.mem_of_mem_filter hin, rfl⟩

namespace Tables.Sampleable

variable {t : Tables}

theorem severeIds (h : t.Sampleable) : (t.severeGroups.map LogGroup.groupId).Nodup :=
  nodup_ids_filter h.ids _

/-- A group that a summary names is a severe group. -/
theorem exists_named (h : t.Sampleable) {row : SevereServiceGroup}
    (hrow : row ∈ t.severeServiceGroups) {id : Nat}
    (hid : id ∈ [row.oldestGroupId, row.newestGroupId]) :
    ∃ group ∈ t.severeGroups, group.groupId = id := by
  obtain ⟨group, hgroup, hsevere, heq⟩ : ∃ group ∈ t.logGroups,
      group.isSevereOf row.service = true ∧ group.groupId = id := by
    rcases List.mem_pair.mp hid with rfl | rfl
    · obtain ⟨group, hgroup, hsevere, heq⟩ := (h.index.severeOldest row hrow).1
      exact ⟨group, hgroup, hsevere, congrArg (fun key : Int ×ₗ Nat => (ofLex key).2) heq⟩
    · obtain ⟨group, hgroup, hsevere, heq⟩ := (h.index.severeNewest row hrow).1
      exact ⟨group, hgroup, hsevere, congrArg (fun key : Int ×ₗ Nat => (ofLex key).2) heq⟩
  exact ⟨group, List.mem_filter.mpr ⟨hgroup, (Bool.and_eq_true_iff.mp hsevere).1⟩, heq⟩

theorem exists_representative (h : t.Sampleable) (serviceLimit : Nat) :
    ∀ id ∈ t.representativeIds serviceLimit, ∃ group ∈ t.severeGroups, group.groupId = id := by
  intro id hid
  have hrows : ∀ (descending : Bool) (count : Nat), ∀ row ∈
      (servicesInCountOrder descending t.severeServiceGroups).take count,
      row ∈ t.severeServiceGroups := by
    intro descending count row hrow
    have hrow := List.mem_of_mem_take hrow
    unfold servicesInCountOrder at hrow
    split at hrow <;> exact (List.perm_insertionSort _ _).subset hrow
  rcases (nodup_foldl_new _ [] List.nodup_nil).2 id hid with hin | hin
  · cases hin
  · obtain ⟨row, hrow, hid⟩ := List.mem_flatMap.mp hin
    rcases List.mem_append.mp hrow with hrow | hrow
    · exact h.exists_named (hrows _ _ row hrow) hid
    · exact h.exists_named (hrows _ _ row hrow) hid

theorem readGroupById_eq (h : t.Sampleable) {group : LogGroup} (hgroup : group ∈ t.logGroups) :
    t.readGroupById group.groupId = .ok group.card := by
  unfold readGroupById
  cases hfind : Table.find LogGroup.groupId t.logGroups group.groupId with
  | none => exact absurd rfl (Table.find_eq_none.mp hfind group hgroup)
  | some found =>
      obtain ⟨hfound, hid⟩ := Table.mem_of_find hfind
      rw [List.inj_on_of_nodup_map h.ids hfound hgroup hid]
      rfl

/-- The representatives are distinct severe groups. -/
theorem readSevereServiceRepresentatives_eq (h : t.Sampleable) (serviceLimit : Nat) :
    ∃ cards, t.readSevereServiceRepresentatives serviceLimit = .ok cards ∧
      DistinctCards t.severeGroups cards := by
  obtain ⟨cards, hcards, hall⟩ := Loop.exists_mapM_eq_ok (l := t.representativeIds serviceLimit)
    (f := t.readGroupById) (R := fun id card => card.groupId = id ∧ IsCardOf t.severeGroups card)
    (by
      intro id hid
      obtain ⟨group, hgroup, rfl⟩ := h.exists_representative serviceLimit id hid
      exact ⟨group.card, h.readGroupById_eq (List.mem_of_mem_filter hgroup), rfl, group, hgroup,
        rfl⟩)
  refine ⟨cards, hcards, ?_, ?_⟩
  · have hids : cards.map CorpusGroupCard.groupId = t.representativeIds serviceLimit :=
      List.forall₂_eq_eq_eq ▸ List.forall₂_map_left_iff.mpr (hall.flip.imp fun _ _ hR => hR.1)
    rw [hids]
    exact (nodup_foldl_new _ [] List.nodup_nil).1
  · have hsevere := hall.flip.imp fun card id hR => (⟨hR.2, hR.1⟩ :
      IsCardOf t.severeGroups card ∧ card.groupId = id)
    exact ((List.forall₂_and_left _ _).mp hsevere).1

/-- The anchors lie between the oldest and the newest group. -/
theorem anchors_eq (h : t.Sampleable) {oldest newest : LogGroup} {perAnchor : Nat}
    (holdest : (inTimeOrder false t.severeGroups).head? = some oldest)
    (hnewest : (inTimeOrder true t.severeGroups).head? = some newest) (hper : perAnchor ≤ 257) :
    ∃ anchors, anchorParts.mapM (t.readAnchor oldest.card.lastTimestampMillis
        newest.card.lastTimestampMillis perAnchor) = .ok anchors ∧
      ∀ card ∈ anchors.flatten, IsCardOf t.severeGroups card := by
  have hmem : ∀ {newestFirst : Bool} {group : LogGroup},
      (inTimeOrder newestFirst t.severeGroups).head? = some group → group ∈ t.severeGroups :=
    fun hhead => (perm_inTimeOrder _ _).subset (List.mem_of_head? hhead)
  have htimed : ∀ group ∈ t.severeGroups, InI64 group.card.lastTimestampMillis :=
    fun group hgroup => h.timed group (List.mem_of_mem_filter hgroup)
  obtain ⟨anchors, hanchors, hall⟩ := Loop.exists_mapM_eq_ok (l := anchorParts)
    (f := t.readAnchor oldest.card.lastTimestampMillis newest.card.lastTimestampMillis perAnchor)
    (R := fun _ cards => ∀ card ∈ cards, IsCardOf t.severeGroups card)
    fun part hpart => t.readAnchor_eq (htimed _ (hmem holdest)) (htimed _ (hmem hnewest))
      (oldest_le h.severeIds holdest (hmem hnewest)) hper hpart
  refine ⟨anchors, hanchors, fun card hcard => ?_⟩
  obtain ⟨cards, hcards, hcard⟩ := List.mem_flatten.mp hcard
  have hboth := hall.flip.imp fun cards part hR => (⟨hR, trivial⟩ :
    (∀ card ∈ cards, IsCardOf t.severeGroups card) ∧ True)
  exact ((List.forall₂_and_left _ _).mp hboth).1 cards hcards card hcard

/-- A sample of the whole history is full as well. -/
theorem searchPriorityGroups_eq (h : t.Sampleable) {limit : Nat} (hpos : 0 < limit)
    (hle : limit ≤ 256) :
    ∃ page, t.searchPriorityGroups limit = .ok page ∧
      IsSample t.severeGroups limit page.groups ∧
      (page.candidatePoolTruncated = true ↔ limit < t.severeGroups.length) := by
  have hids := h.severeIds
  have hlength := length_endCards t.severeGroups (limit + 1) true
  have hdistinct := distinctCards_inTimeOrder hids true (limit + 1)
  change DistinctCards _ (endCards t.severeGroups (limit + 1) true) at hdistinct
  unfold searchPriorityGroups
  rw [if_neg (by omega), t.readSevereGroups_eq (show limit + 1 ≤ 257 by omega) true]
  simp only [bind, Except.bind]
  split
  · -- everything fits
    exact ⟨_, rfl, ⟨hdistinct, by simp only; omega⟩, iff_of_false Bool.false_ne_true (by omega)⟩
  split
  · -- a single group
    exact ⟨_, rfl, ⟨hdistinct.sublist (List.take_sublist ..), by
      simp only [List.length_take]; omega⟩, iff_of_true rfl (by omega)⟩
  have hmany : limit < t.severeGroups.length := by omega
  have hend : 0 < max (limit / 3) 1 ∧ max (limit / 3) 1 ≤ limit := by omega
  have hends : ∀ newestFirst, ∃ group,
      (inTimeOrder newestFirst t.severeGroups).head? = some group := by
    intro newestFirst
    refine Option.ne_none_iff_exists'.mp fun hnone => ?_
    have hnil := length_inTimeOrder newestFirst t.severeGroups
    rw [List.head?_eq_none_iff.mp hnone, List.length_nil] at hnil
    omega
  obtain ⟨newest, hnewest⟩ := hends true
  obtain ⟨oldest, holdest⟩ := hends false
  obtain ⟨anchors, hanchors, hanchor⟩ := h.anchors_eq holdest hnewest
    (show (limit - (((endCards t.severeGroups (limit + 1) true).take
      (max (limit / 3) 1)).length + (endCards t.severeGroups (max (limit / 3) 1) false).length) +
        7) / 8 ≤ 257 by omega)
  obtain ⟨cards, hcards, hrepresent⟩ :=
    h.readSevereServiceRepresentatives_eq (min (max (limit / 8) 1) 32)
  rw [head?_endCards _ (Nat.succ_pos _), hnewest, if_pos (by omega),
    t.readSevereGroups_eq (by omega) false]
  simp only [Option.map_some, okOr, head?_endCards _ hend.1, holdest, hanchors, hcards]
  split
  · -- the representatives are enough
    exact ⟨_, rfl, ⟨hrepresent.sublist (List.take_sublist ..), by
      simp only [List.length_take]; omega⟩, iff_of_true rfl hmany⟩
  · have hsplit := List.take_append_drop (max (limit / 3) 1)
      (endCards t.severeGroups (limit + 1) true)
    refine ⟨_, rfl, ?_, iff_of_true rfl hmany⟩
    refine isSample_fillSample hrepresent (by omega) hmany ?_ ?_ hdistinct (by omega) ?_
    · intro card hcard
      simp only [List.flatten_cons, List.mem_append] at hcard
      rcases hcard with hcard | hcard | hcard
      · exact (distinctCards_inTimeOrder hids false _).cards card hcard
      · exact hdistinct.cards card (List.mem_of_mem_take hcard)
      · exact hanchor card hcard
    · exact fun card hcard => hdistinct.cards card (List.mem_of_mem_drop hcard)
    · intro card hcard
      rw [← hsplit] at hcard
      rcases List.mem_append.mp hcard with hcard | hcard
      · exact .inl (by simp [hcard])
      · exact .inr hcard

end Tables.Sampleable

/-! ## Every store -/

section Stores

variable [Sha256] [LogModel] [Rowids]

/-- After any pages, every admitted search succeeds with a sample of distinct
severe groups that is full, and says whether there are more. -/
theorem severe_samples (pages : List (Option CorpusError × List TimedRecord)) :
    (∀ limit, 0 < limit → limit ≤ 256 → ∃ page,
      (storeAfter pages).searchPriorityGroups limit = .ok page ∧
      IsSample (storeAfter pages).severeGroups limit page.groups ∧
      (page.candidatePoolTruncated = true ↔ limit < (storeAfter pages).severeGroups.length)) ∧
    ∀ service limit, service.isEmpty = false → (Utf8.asBytes service).length ≤ 256 → 0 < limit →
      limit ≤ 64 → ∃ page,
      (storeAfter pages).searchSevereServiceGroups service limit = .ok page ∧
      IsSample ((storeAfter pages).logGroups.filter (LogGroup.isSevereOf service)) limit
        page.groups ∧
      page.totalGroups =
        ((storeAfter pages).logGroups.filter (LogGroup.isSevereOf service)).length ∧
      (page.candidatePoolTruncated = true ↔
        limit < ((storeAfter pages).logGroups.filter (LogGroup.isSevereOf service)).length) :=
  ⟨fun _ hpos hle => (sampleable_storeAfter pages).searchPriorityGroups_eq hpos hle,
    fun _ _ hservice hbytes hpos hle =>
      (sampleable_storeAfter pages).searchSevereServiceGroups_eq hservice hbytes hpos hle⟩

end Stores

/-! ## Eight groups, seven places -/

/-- Every event is an error of one of two services; its first byte is its text. -/
abbrev errorLog : LogModel where
  parseEvent raw :=
    ⟨if raw.head? = some 97 then "db" else "api", "error",
      String.ofList (raw.map fun byte => Char.ofNat byte.toNat)⟩
  explicitPeerService _ := none

def errorAt (byte : UInt8) (millis : Fin 100) : TimedRecord :=
  ⟨⟨[byte], millis.val, [byte]⟩, by simp only; omega, by simp only; omega⟩

/-- Two pages; the errors lie at the two ends of the time, but for two. -/
def eightErrors : List (Option CorpusError × List TimedRecord) :=
  [(none, [errorAt 97 0, errorAt 98 1, errorAt 99 2, errorAt 100 3]),
    (none, [errorAt 101 30, errorAt 102 80, errorAt 103 85, errorAt 104 90])]

/-- One service's oldest, then the ends and the anchors in turn, and the newest that is
left. -/
theorem severe_samples_eight :
    letI := fips180
    letI := errorLog
    letI := noRetry
    (∃ page, (storeAfter eightErrors).searchPriorityGroups 7 = .ok page ∧
      IsSample (storeAfter eightErrors).severeGroups 7 page.groups ∧
      page.groups.map CorpusGroupCard.lastTimestampMillis = [0, 90, 80, 30, 1, 85, 3] ∧
      page.candidatePoolTruncated = true) ∧
    ∃ page, (storeAfter eightErrors).searchSevereServiceGroups "api" 3 = .ok page ∧
      page.groups.length = 3 ∧ page.totalGroups = 7 ∧ page.candidatePoolTruncated = true := by
  rw [fips180_eq]
  let := fips180Evaluated
  let := errorLog
  let := noRetry
  have hcounts : (storeAfter eightErrors).severeGroups.length = 8 ∧
      ((storeAfter eightErrors).logGroups.filter (LogGroup.isSevereOf "api")).length = 7 ∧
      ((storeAfter eightErrors).searchPriorityGroups 7).map (fun page =>
        page.groups.map CorpusGroupCard.lastTimestampMillis) =
          .ok [0, 90, 80, 30, 1, 85, 3] := by
    decide +kernel
  obtain ⟨hsevere, hservice, hmillis⟩ := hcounts
  constructor
  · obtain ⟨page, hpage, hsample, htruncated⟩ :=
      (severe_samples eightErrors).1 7 (by decide) (by decide)
    rw [hpage] at hmillis
    exact ⟨page, hpage, hsample, Except.ok.inj hmillis, htruncated.mpr (by omega)⟩
  · obtain ⟨page, hpage, hsample, htotal, htruncated⟩ :=
      (severe_samples eightErrors).2 "api" 3 (by decide) (by decide) (by decide) (by decide)
    have hlength := hsample.length
    exact ⟨page, hpage, by omega, by omega, htruncated.mpr (by omega)⟩

end Evidentrail
