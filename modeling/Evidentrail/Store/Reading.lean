import Evidentrail.Store.Intact

/-!
# Reading a visible result

A directory that matches its published record gives back every event of its
batches: the index has one entry for each, and the entry leads to the event.
-/

namespace Evidentrail

open Rust Std Slice Attempt KeyAuthorityV2 LawfulKeyAuthorityV2

namespace ResultDirectoryV2

variable {r : ResultId} {key : ResultDekV1}

/-! ## Batches that open -/

theorem checkEvents_ok : ∀ {events : List DurableEventInputV2} {seen : List EventId},
    checkEvents seen events = .ok () →
      (∀ event ∈ events, event.decodes = true ∧ event.eventId ∉ seen) ∧
        (events.map DurableEventInputV2.eventId).Nodup
  | [], _, _ => ⟨by simp, List.nodup_nil⟩
  | event :: rest, seen, h => by
      unfold checkEvents at h
      split at h
      · cases h
      · rename_i hdecodes
        split at h
        · cases h
        · rename_i hseen
          obtain ⟨hrest, hnodup⟩ := checkEvents_ok h
          refine ⟨?_, List.nodup_cons.mpr ⟨?_, hnodup⟩⟩
          · rintro other (_ | ⟨_, hother⟩)
            · exact ⟨by simpa using hdecodes, hseen⟩
            · exact ⟨(hrest other hother).1,
                fun hmem => (hrest other hother).2 (List.mem_cons_of_mem _ hmem)⟩
          · intro hmem
            obtain ⟨other, hother, hid⟩ := List.mem_map.mp hmem
            exact (hrest other hother).2 (hid ▸ List.mem_cons_self ..)

/-- Opened batches are the contents of their segments, every event decodes
and no event occurs twice. -/
theorem openBatches_ok : ∀ {segments : List (SegmentV2 BatchCommitInputV2)}
    {seen : List EventId} {batches : List BatchCommitInputV2},
    openBatches r key seen segments = .ok batches →
      segments = batches.map (fun batch => ⟨r, key, batch⟩) ∧
      (∀ event ∈ batches.flatMap BatchCommitInputV2.events,
        event.decodes = true ∧ event.eventId ∉ seen) ∧
      ((batches.flatMap BatchCommitInputV2.events).map DurableEventInputV2.eventId).Nodup
  | [], _, _, h => by
      cases h
      exact ⟨rfl, by simp, List.nodup_nil⟩
  | segment :: rest, seen, batches, h => by
      obtain ⟨batch, hopened, h⟩ := except_bind_eq_ok.mp h
      obtain ⟨_, hcheck, h⟩ := except_bind_eq_ok.mp h
      obtain ⟨later, hlater, h⟩ := except_bind_eq_ok.mp h
      cases h
      obtain ⟨hsegments, hevents, hnodup⟩ := openBatches_ok hlater
      obtain ⟨hfirst, hfirstNodup⟩ := checkEvents_ok hcheck
      refine ⟨by rw [SegmentV2.opened_ok hopened, hsegments, List.map_cons], ?_, ?_⟩
      · intro event hevent
        rw [List.flatMap_cons, List.mem_append] at hevent
        rcases hevent with hevent | hevent
        · exact hfirst event hevent
        · exact ⟨(hevents event hevent).1, fun hmem =>
            (hevents event hevent).2 (List.mem_append_right _ hmem)⟩
      · rw [List.flatMap_cons, List.map_append, List.nodup_append]
        refine ⟨hfirstNodup, hnodup, ?_⟩
        intro id hid id' hid' heq
        subst heq
        obtain ⟨event, hevent, rfl⟩ := List.mem_map.mp hid'
        exact (hevents event hevent).2 (List.mem_append_left _ hid)

/-! ## The index -/

theorem mem_indexEntries {batches : List BatchCommitInputV2} {i j : Nat}
    {batch : BatchCommitInputV2} {event : DurableEventInputV2} (hbatch : batches[i]? = some batch)
    (hevent : batch.events[j]? = some event) :
    (⟨event.eventId, event.exactnessBasis, ⟨i + 1, j + 1, event.authorizedBytes.length⟩⟩ :
      AuthenticatedEventIndexEntryV2) ∈ indexEntries batches := by
  unfold indexEntries batchEntries
  rw [List.mem_flatMap]
  refine ⟨(batch, i), List.mem_zipIdx_iff_getElem?.mpr hbatch, ?_⟩
  exact List.mem_map.mpr ⟨(event, j), List.mem_zipIdx_iff_getElem?.mpr hevent, rfl⟩

theorem indexEntries_eventIds (batches : List BatchCommitInputV2) :
    (indexEntries batches).map AuthenticatedEventIndexEntryV2.eventId =
      (batches.flatMap BatchCommitInputV2.events).map DurableEventInputV2.eventId := by
  unfold indexEntries
  rw [List.map_flatMap, List.map_flatMap]
  have hbatch : ∀ pair : BatchCommitInputV2 × Nat,
      (batchEntries (pair.2 + 1) pair.1.events).map AuthenticatedEventIndexEntryV2.eventId =
        pair.1.events.map DurableEventInputV2.eventId := by
    intro pair
    unfold batchEntries
    rw [List.map_map]
    conv_rhs => rw [← List.zipIdx_map_fst 0 pair.1.events, List.map_map]
    rfl
  simp only [hbatch]
  conv_rhs => rw [← List.zipIdx_map_fst 0 batches, List.flatMap_map]

/-- With distinct keys, a search by key finds the element that has it. -/
theorem find?_eventId {index : List AuthenticatedEventIndexEntryV2}
    {entry : AuthenticatedEventIndexEntryV2}
    (hnodup : (index.map AuthenticatedEventIndexEntryV2.eventId).Nodup) (hmem : entry ∈ index) :
    index.find? (·.eventId = entry.eventId) = some entry := by
  cases hfound : index.find? (·.eventId = entry.eventId) with
  | none =>
      have := List.find?_eq_none.mp hfound entry hmem
      simp at this
  | some other =>
      have hid : other.eventId = entry.eventId := by simpa using List.find?_some hfound
      rw [List.inj_on_of_nodup_map hnodup (List.mem_of_find?_eq_some hfound) hmem hid]

/-- Every event of the opened batches can be read through the index. -/
theorem readEvent_ok {d : ResultDirectoryV2} {batches : List BatchCommitInputV2}
    (hopened : openBatches r key [] d.batches = .ok batches) {event : DurableEventInputV2}
    (hevent : event ∈ batches.flatMap BatchCommitInputV2.events) :
    RepositoryV2.readEvent d r key
      (sortByKey AuthenticatedEventIndexEntryV2.eventId (indexEntries batches))
      event.eventId = .ok event := by
  obtain ⟨hsegments, hevents, hnodup⟩ := openBatches_ok hopened
  obtain ⟨batch, hbatch, hin⟩ := List.mem_flatMap.mp hevent
  obtain ⟨i, hi⟩ := List.mem_iff_getElem?.mp hbatch
  obtain ⟨j, hj⟩ := List.mem_iff_getElem?.mp hin
  have hkeys : ((sortByKey AuthenticatedEventIndexEntryV2.eventId
      (indexEntries batches)).map AuthenticatedEventIndexEntryV2.eventId).Nodup := by
    rw [((perm_sortByKey _ (indexEntries batches)).map _).nodup_iff, indexEntries_eventIds]
    exact hnodup
  have hfile : d.batches[i]? = some ⟨r, key, batch⟩ := by
    rw [hsegments, List.getElem?_map, hi]
    rfl
  unfold RepositoryV2.readEvent
  rw [find?_eventId hkeys ((mem_sortByKey _).mpr (mem_indexEntries hi hj)), okOr_some,
    except_bind_ok]
  unfold readIndexedEvent
  simp only [Nat.add_sub_cancel, hfile, openFile, SegmentV2.opened_self, except_bind_ok, hj,
    okOr_some, (hevents event hevent).1, Bool.not_true, Bool.false_eq_true, if_false, ne_eq,
    not_true_eq_false, or_self]

end ResultDirectoryV2

namespace RepositoryV2

open ResultDirectoryV2

def totalBytes (events : List DurableEventInputV2) : Nat :=
  (events.map (·.authorizedBytes.length)).sum

/-- The loop returns readable, distinct events as they were asked for. -/
theorem expandLoop_ok
    {readEvent : EventId → Except DurableRepositoryErrorV2 DurableEventInputV2}
    {maxEvents maxBytes : Nat} (hmax : maxBytes < u64Bound) :
    ∀ {events : List DurableEventInputV2} {seen : List EventId} {expansion : DurableExpansionV2},
      (∀ event ∈ events, readEvent event.eventId = .ok event ∧ event.eventId ∉ seen) →
      (events.map DurableEventInputV2.eventId).Nodup →
      expansion.events.length + events.length ≤ maxEvents →
      expansion.returnedBytes + totalBytes events ≤ maxBytes →
      expandLoop readEvent maxEvents maxBytes seen expansion
          (events.map DurableEventInputV2.eventId) =
        .ok ⟨expansion.events ++ events, expansion.returnedBytes + totalBytes events⟩
  | [], _, expansion, _, _, _, _ => by
      simp [expandLoop, totalBytes]
  | event :: rest, seen, expansion, hread, hnodup, hcount, hbytes => by
      obtain ⟨hevent, hseen⟩ := hread event (List.mem_cons_self ..)
      obtain ⟨hfirst, hrestNodup⟩ := List.nodup_cons.mp hnodup
      have htotal : totalBytes (event :: rest) =
          event.authorizedBytes.length + totalBytes rest := by
        simp [totalBytes]
      rw [htotal] at hbytes
      rw [List.length_cons] at hcount
      rw [List.map_cons, expandLoop, if_neg hseen, if_neg (by omega), hevent, except_bind_ok,
        checkedAdd_of_lt (by omega), okOr_some, except_bind_ok, if_neg (by omega),
        expandLoop_ok hmax _ hrestNodup, htotal]
      · simp [List.append_assoc, Nat.add_assoc]
      · simp only [List.length_append, List.length_singleton]
        omega
      · dsimp only
        omega
      · intro other hother
        obtain ⟨hreads, hnew⟩ := hread other (List.mem_cons_of_mem _ hother)
        refine ⟨hreads, fun hmem => ?_⟩
        rcases List.mem_cons.mp hmem with heq | hmem
        · exact hfirst (heq ▸ List.mem_map_of_mem hother)
        · exact hnew hmem

section Visible

variable {A : Type} [KeyAuthorityV2 A] [Sha256] [LawfulKeyAuthorityV2 A] [SnapshotFormatV2]
  {r : ResultId} {record : ResultAuthorityRecordV2} {key : ResultDekV1} {s : RepositoryV2 A}

/-- The final manifest of a directory that was sealed as the record says. -/
theorem readFinalManifest_ok {d : ResultDirectoryV2} (hok : DirectoryOk r d)
    (hsealed : SealedAs d record key) : ∃ manifest, d.readFinalManifest r key = .ok manifest ∧
      manifest.digest = record.sealCommitments.finalManifest ∧
      manifest.eventIndex = record.sealCommitments.eventIndex := by
  obtain ⟨_, ⟨id, dek, content⟩, hsegment, hdek, hcommitments⟩ := hsealed
  cases hdek
  cases (hok.sealed _ hsegment).1
  refine ⟨content.manifest, ?_, by rw [hcommitments]; rfl, by rw [hcommitments]; rfl⟩
  rw [readFinalManifest, hsegment, openFile, SegmentV2.opened_self]
  rfl

/-- And its data commit, which indexes all its batches. -/
theorem readDataCommit_ok {d : ResultDirectoryV2} (hok : DirectoryOk r d)
    (hsealed : SealedAs d record key) : ∃ data batches,
      openFile d.dataCommit r key = .ok data ∧
      SnapshotFormatV2.eventIndexDigest data.index data.manifest.frameChain =
        record.sealCommitments.eventIndex ∧
      openBatches r key [] d.batches = .ok batches ∧
      data.index = sortByKey AuthenticatedEventIndexEntryV2.eventId (indexEntries batches) := by
  obtain ⟨⟨⟨id, dek, data⟩, hdata, hdek, hcount⟩, segment, hsegment, _, hcommitments⟩ := hsealed
  obtain ⟨hid, _, _, hdigest, batches, hopened, hindex⟩ := hok.data _ hdata
  obtain ⟨_, data', hdata', _, hsame⟩ := hok.sealed segment hsegment
  cases hdek
  cases hid
  rw [hdata] at hdata'
  cases hdata'
  refine ⟨data, batches, ?_, ?_, ?_, hindex⟩
  · rw [hdata, openFile, SegmentV2.opened_self]
  · rw [hcommitments]
    exact hdigest.symm.trans hsame.symm
  · rw [hcount, List.take_length] at hopened
    exact hopened

theorem verifyVisible_ok (hs : Sound s.authority) (h : Intact r s)
    (hstored : stored s.authority r = some (record, key))
    (hpublished : record.state = .published) :
    s.verifyVisible r record.repositoryCommitment = .ok () := by
  obtain ⟨hstaging, hcommitment, d, hfinal, hsealed, hfile⟩ :=
    (Stage.published hpublished).mp (h.stage _ _ hstored)
  obtain ⟨manifest, hmanifest, hdigest, _⟩ := readFinalManifest_ok (h.final d hfinal) hsealed
  have hmem : r ∉ s.staging := by
    rw [ExtTreeMap.mem_iff_isSome_getElem?, hstaging]
    simp
  unfold verifyVisible
  simp only [hfinal, hmem, if_false, hfile, okOr_some, except_bind_ok, hcommitment, ne_eq,
    not_true_eq_false, resultKey_eq hs, snapshot_eq hs, hstored, Option.map_some, ofAuthority,
    Except.mapError, hmanifest, hdigest, or_self]

/-- The events of the batches in a directory. -/
def committedEvents (d : ResultDirectoryV2) : List DurableEventInputV2 :=
  d.batches.flatMap fun segment => segment.content.events

/-- A published result gives back any of its events. -/
theorem expand_ok (hs : Sound s.authority) (h : Intact r s)
    (hstored : stored s.authority r = some (record, key))
    (hpublished : record.state = .published) {d : ResultDirectoryV2}
    (hfinal : s.finals[r]? = some d) {events : List DurableEventInputV2} (hne : events ≠ [])
    (hevents : ∀ event ∈ events, event ∈ committedEvents d)
    (hnodup : (events.map DurableEventInputV2.eventId).Nodup) {maxEvents maxBytes : Nat}
    (hcount : events.length ≤ maxEvents) (hmaxEvents : maxEvents ≤ maxDurableExpansionEvents)
    (hbytes : totalBytes events ≤ maxBytes) (hpos : maxBytes ≠ 0)
    (hmaxBytes : maxBytes ≤ maxDurableExpansionBytes) {now : Int}
    (hnow : record.createdUnixNanos ≤ now ∧ now < record.expiresUnixNanos) :
    s.expand r (events.map DurableEventInputV2.eventId) maxEvents maxBytes now =
      .ok ⟨events, totalBytes events⟩ := by
  obtain ⟨hstaging, hcommitment, d', hfinal', hsealed, hfile⟩ :=
    (Stage.published hpublished).mp (h.stage _ _ hstored)
  rw [hfinal] at hfinal'
  cases hfinal'
  have hok := h.final d hfinal
  obtain ⟨manifest, hmanifest, hdigest, hmanifestIndex⟩ := readFinalManifest_ok hok hsealed
  obtain ⟨data, batches, hdata, hindexDigest, hopened, hindex⟩ := readDataCommit_ok hok hsealed
  have hsegments := (openBatches_ok hopened).1
  have hread : ∀ event ∈ events,
      readEvent d r key data.index event.eventId = .ok event ∧ event.eventId ∉ [] := by
    intro event hevent
    refine ⟨?_, List.not_mem_nil⟩
    rw [hindex]
    refine readEvent_ok hopened ?_
    have hcommitted := hevents event hevent
    unfold committedEvents at hcommitted
    rw [hsegments, List.flatMap_map] at hcommitted
    exact hcommitted
  have hvalid : ¬(events.map DurableEventInputV2.eventId = [] ∨ maxEvents = 0 ∨
      maxEvents > maxDurableExpansionEvents ∨ maxBytes = 0 ∨
      maxBytes > maxDurableExpansionBytes) := by
    have := List.length_pos_iff.mpr hne
    simp only [List.map_eq_nil_iff, hne, false_or, not_or]
    omega
  have hlive : ¬(record.state ≠ .published ∨ now < record.createdUnixNanos ∨
      now ≥ record.expiresUnixNanos) := by
    rw [hpublished]
    simp only [ne_eq, not_true_eq_false, false_or, not_or]
    omega
  unfold expand
  rw [if_neg hvalid, hfinal, okOr_some, except_bind_ok, hok.lock, snapshot_eq hs, hstored]
  simp only [Bool.not_true, Bool.false_eq_true, if_false, Option.map_some, okOr_some, ofAuthority,
    Except.mapError, except_bind_ok, hlive, verifyVisible_ok hs h hstored hpublished,
    resultKey_eq hs, hstored, hmanifest, hdigest, ne_eq, not_true_eq_false, hdata, hindexDigest,
    hmanifestIndex, or_self]
  have hbound : maxDurableExpansionBytes < u64Bound := by decide
  have hstart : (⟨[], 0⟩ : DurableExpansionV2).events.length + events.length ≤ maxEvents := by
    simpa using hcount
  rw [expandLoop_ok (Nat.lt_of_le_of_lt hmaxBytes hbound) hread hnodup hstart
    (by simpa using hbytes)]
  simp

end Visible

end RepositoryV2

end Evidentrail
