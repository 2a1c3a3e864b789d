import Evidentrail.Snapshot.Journal
import Evidentrail.Snapshot.SegmentFile
import Evidentrail.Snapshot.SourceOutcome

/-!
# The formats of fixed width

Catalog, event index, outcome table, journal, frame and segment header, in both
directions: what is built comes back, and what is accepted is written back as it
was.
-/

namespace Evidentrail

open Rust Bytes Snapshot

/-- For each format, the values that are built come back from their encoding and
the byte strings that are accepted are the encodings of what they decode to; and
an outcome table gives back the receipt it was built from. -/
theorem fixed_width_formats_canonical [Sha256] [FrameCipher] [LawfulFrameCipher] :
    RoundTrips SegmentCatalogV1.encode SegmentCatalogV1.decode
      (fun catalog => ∃ entries, SegmentCatalogV1.new entries = .ok catalog) ∧
    (∀ catalog, RoundTrips EventExpansionIndexV1.encode (EventExpansionIndexV1.decode catalog)
      fun index => ∃ entries, EventExpansionIndexV1.new catalog entries = .ok index) ∧
    (∀ catalog index, EventExpansionIndexV1.Accepted catalog index →
      RoundTrips SourceOutcomeTableV1.encode (SourceOutcomeTableV1.decode index)
        (fun table => ∃ receipt, SourceOutcomeTableV1.new receipt index = .ok table) ∧
      ∀ receipt table, SourceOutcomeTableV1.new receipt index = .ok table →
        table.toAcquisitionReceipt = .ok receipt) ∧
    RoundTrips DurableBatchJournalV2.encode DurableBatchJournalV2.decode
      (fun journal => ∃ base firstCounter count reservation batchOrdinal operation canonicalDigest
          acknowledgements,
        NonceReservationV1.new base firstCounter count = .ok reservation ∧
        DurableBatchJournalV2.new batchOrdinal operation canonicalDigest reservation
          acknowledgements = .ok journal) ∧
    RoundTrips SealedFrameV2.encode SealedFrameV2.decode
      (fun frame => ∃ resultDek segment header plaintext additionalAad,
        sealFrameV2 resultDek segment header plaintext additionalAad = .ok frame) ∧
    RoundTrips SegmentHeaderV1.encode SegmentHeaderV1.decode
      (fun header => ∃ payloadSchema resultId segmentSequence created expires prior,
        SegmentHeaderV1.new payloadSchema resultId segmentSequence created expires prior =
          .ok header) := by
  refine ⟨?_, fun catalog => ?_, fun catalog index haccepted => ⟨?_, ?_⟩, ?_, ?_, ?_⟩
  · exact SegmentCatalogV1.canonical.roundTrips fun _ _ => trivial
  · refine EventExpansionIndexV1.canonical.roundTrips fun index hbuilt => ?_
    obtain ⟨entries, hnew⟩ := hbuilt
    exact (EventExpansionIndexV1.new_eq_ok.mp hnew).2
  · refine (SourceOutcomeTableV1.canonical ?_).roundTrips fun table hbuilt => ?_
    · exact haccepted.acceptedBy.sorted.nodup_map
    · obtain ⟨receipt, hnew⟩ := hbuilt
      exact (SourceOutcomeTableV1.new_eq_ok hnew).2.2
  · exact fun receipt table hnew => SourceOutcomeTableV1.toAcquisitionReceipt_of_new hnew
  · refine DurableBatchJournalV2.canonical.roundTrips fun journal hbuilt => ?_
    obtain ⟨_, _, _, _, _, _, _, _, hreservation, hnew⟩ := hbuilt
    exact DurableBatchJournalV2.valid_of_new hreservation hnew
  · refine SealedFrameV2.canonical.roundTrips fun frame hbuilt => ?_
    obtain ⟨_, _, _, _, _, hsealed⟩ := hbuilt
    exact SealedFrameV2.wellFormed_sealed hsealed
  · exact SegmentHeaderV1.canonical.roundTrips fun _ _ => trivial

/-! ## One value of each format -/

namespace FixedWidth

open EventExpansionIndexV1 (sampleCatalog sampleEntries)

/-- The second frame is the outcome of a policy. -/
def policyEntries : List EventExpansionIndexEntryV1 :=
  sampleEntries.map fun entry =>
    if entry.frameLocator.segmentFrameSequence = 1 then
      { entry with exactnessBasis := .postPolicy (.repeated 6) (.repeated 7) }
    else entry

/-- An event of each basis, and a record that was left out between them. -/
def threeOutcomes : AcquisitionReceipt :=
  .ofEntries (.repeated 3) [⟨.repeated 1, .persisted (.repeated 9) .sourceExact⟩,
    ⟨.repeated 2, .omittedByPolicy (.repeated 5)⟩,
    ⟨.repeated 8, .persisted (.repeated 4) (.postPolicy (.repeated 6) (.repeated 7))⟩]

/-- Where the two events of a batch were written. -/
def twoAcknowledgements : Option (List DurableAcknowledgementV2) := do
  let first ← (EventFrameLocatorV2.new 0 1 5 96 200 40 (.repeated 8)).toOption
  let second ← (EventFrameLocatorV2.new 0 2 6 296 200 41 (.repeated 7)).toOption
  some [⟨.repeated 9, first⟩, ⟨.repeated 4, second⟩]

def twoEventsJournal : Option DurableBatchJournalV2 := do
  let acknowledgements ← twoAcknowledgements
  let reservation ← (NonceReservationV1.new (.repeated 2) 5 4).toOption
  (DurableBatchJournalV2.new 3 (.repeated 1) (.repeated 6) reservation acknowledgements).toOption

def shortFrame [Sha256] [FrameCipher] : Option SealedFrameV2 := do
  let header ← (FrameHeaderV2.new .authorizedEvent 0 0 11 5 (frameNonce (.repeated 2) 4)
    .zero).toOption
  (sealFrameV2 (.repeated 7) Segment.sampleHeader header [1, 2, 3, 4, 5] [6]).toOption

theorem samples_built :
    letI := fips180
    letI := Segment.digestCipher
    (∃ index table, EventExpansionIndexV1.new sampleCatalog policyEntries = .ok index ∧
        SourceOutcomeTableV1.new threeOutcomes index = .ok table) ∧
      (∃ journal, twoEventsJournal = some journal) ∧ ∃ frame, shortFrame = some frame := by
  rw [fips180_eq]
  let := fips180Evaluated
  let := Segment.digestCipher
  have hrun : ((EventExpansionIndexV1.new sampleCatalog policyEntries).toOption.bind fun index =>
      (SourceOutcomeTableV1.new threeOutcomes index).toOption).isSome = true ∧
        twoEventsJournal.isSome = true ∧ shortFrame.isSome = true := by
    decide +kernel
  obtain ⟨htable, hjournal, hframe⟩ := hrun
  obtain ⟨table, htable⟩ := Option.isSome_iff_exists.mp htable
  obtain ⟨index, hindex, htable⟩ := Option.bind_eq_some_iff.mp htable
  exact ⟨⟨index, table, toOption_eq_some.mp hindex, toOption_eq_some.mp htable⟩,
    Option.isSome_iff_exists.mp hjournal, Option.isSome_iff_exists.mp hframe⟩

theorem fixed_width_formats_canonical_three_outcomes :
    letI := fips180
    letI := Segment.digestCipher
    ∃ index table journal frame,
      (EventExpansionIndexV1.new sampleCatalog policyEntries = .ok index ∧
        EventExpansionIndexV1.decode sampleCatalog index.encode = .ok index) ∧
      (SourceOutcomeTableV1.new threeOutcomes index = .ok table ∧
        SourceOutcomeTableV1.decode index table.encode = .ok table ∧
        table.toAcquisitionReceipt = .ok threeOutcomes) ∧
      (twoEventsJournal = some journal ∧
        DurableBatchJournalV2.decode journal.encode = .ok journal) ∧
      shortFrame = some frame ∧ SealedFrameV2.decode frame.encode = .ok frame := by
  obtain ⟨⟨index, table, hindex, htable⟩, ⟨journal, hjournal⟩, frame, hframe⟩ := samples_built
  let := fips180
  let := Segment.digestCipher
  have := Segment.digestCipher_lawful
  obtain ⟨_, hindexes, htables, hjournals, hframes, _⟩ := fixed_width_formats_canonical
  obtain ⟨htableTrip, hreceipt⟩ := htables sampleCatalog index (.inl ⟨_, hindex⟩)
  have hreserved := hjournal
  have hsealed := hframe
  simp only [twoEventsJournal, Option.bind_eq_bind, Option.bind_eq_some_iff,
    toOption_eq_some] at hreserved
  simp only [shortFrame, Option.bind_eq_bind, Option.bind_eq_some_iff,
    toOption_eq_some] at hsealed
  obtain ⟨_, _, _, hreservation, hnew⟩ := hreserved
  obtain ⟨_, _, hseal⟩ := hsealed
  exact ⟨index, table, journal, frame,
    ⟨hindex, (hindexes sampleCatalog).1 index ⟨_, hindex⟩⟩,
    ⟨htable, htableTrip.1 table ⟨_, htable⟩, hreceipt _ _ htable⟩,
    ⟨hjournal, hjournals.1 journal ⟨_, _, _, _, _, _, _, _, hreservation, hnew⟩⟩,
    hframe, hframes.1 frame ⟨_, _, _, _, _, hseal⟩⟩

end FixedWidth

end Evidentrail
