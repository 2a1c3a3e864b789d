import Evidentrail.Store.Run

/-!
# Directories that match their record

The files of a directory are written once and in order, each from those
before it. Along every run in which no `begin` finds a final directory of the
same result, the directory of a result therefore always holds what its
authority record promises: the data commit of its batches from
`dataCommitted` on, the sealed products over it from `sealed` on, and the
repository commitment once it is final.
-/

namespace Evidentrail

open Rust Std Slice Attempt KeyAuthorityV2 LawfulKeyAuthorityV2

/-! ## Opened segments -/

theorem SegmentV2.opened_ok {α : Type} {segment : SegmentV2 α} {r : ResultId}
    {key : ResultDekV1} {content : α} (h : segment.opened r key = .ok content) :
    segment = ⟨r, key, content⟩ := by
  unfold SegmentV2.opened at h
  split at h
  · cases h
  · rename_i hid
    split at h
    · cases h
    · rename_i hdek
      cases h
      obtain ⟨id, dek, content⟩ := segment
      cases not_not.mp hid
      cases not_not.mp hdek
      rfl

theorem openFile_ok {α : Type} {file : Option (SegmentV2 α)} {r : ResultId} {key : ResultDekV1}
    {content : α} (h : openFile file r key = .ok content) : file = some ⟨r, key, content⟩ := by
  cases file with
  | none => cases h
  | some segment => rw [SegmentV2.opened_ok h]

namespace ResultDirectoryV2

theorem openBatches_length {r : ResultId} {key : ResultDekV1} :
    ∀ {segments : List (SegmentV2 BatchCommitInputV2)} {seen : List EventId}
      {batches : List BatchCommitInputV2},
      openBatches r key seen segments = .ok batches → batches.length = segments.length
  | [], _, _, h => by cases h; rfl
  | segment :: rest, seen, batches, h => by
      obtain ⟨batch, _, h⟩ := except_bind_eq_ok.mp h
      obtain ⟨_, _, h⟩ := except_bind_eq_ok.mp h
      obtain ⟨later, hlater, h⟩ := except_bind_eq_ok.mp h
      cases h
      rw [List.length_cons, List.length_cons, openBatches_length hlater]

end ResultDirectoryV2

namespace RepositoryV2

open ResultDirectoryV2

section Files

variable [Sha256] [SnapshotFormatV2]

theorem dataCommitOf_ok {d : ResultDirectoryV2} {r : ResultId} {key : ResultDekV1}
    {input : DataCommitInputV2} {index : List AuthenticatedEventIndexEntryV2}
    {manifest : DataManifestV2} (h : dataCommitOf d r key input = .ok (index, manifest)) :
    d.request.isSome ∧ manifest.batchCount = d.batches.length ∧
      manifest.eventIndex = SnapshotFormatV2.eventIndexDigest index manifest.frameChain ∧
      ∃ batches, openBatches r key [] d.batches = .ok batches ∧
        index = sortByKey AuthenticatedEventIndexEntryV2.eventId (indexEntries batches) := by
  obtain ⟨⟨request, batches, entries⟩, hentries, h⟩ := except_bind_eq_ok.mp h
  obtain ⟨bytes, hrequest, hentries⟩ := except_bind_eq_ok.mp hentries
  obtain ⟨opened, hopened, hentries⟩ := except_bind_eq_ok.mp hentries
  cases hentries
  dsimp only at h
  split at h
  · cases h
  · cases h
    exact ⟨by rw [openFile_ok hrequest]; rfl, openBatches_length hopened, rfl,
      batches, hopened, rfl⟩

/-- The files of a directory of `r`, whatever the authority says: each was
written from the files before it. -/
structure DirectoryOk (r : ResultId) (d : ResultDirectoryV2) : Prop where
  lock : d.resultLock = true
  data : ∀ segment, d.dataCommit = some segment → segment.resultId = r ∧ d.request.isSome ∧
    segment.content.manifest.batchCount ≤ d.batches.length ∧
    segment.content.manifest.eventIndex = SnapshotFormatV2.eventIndexDigest
      segment.content.index segment.content.manifest.frameChain ∧
    ∃ batches, openBatches r segment.resultDek []
        (d.batches.take segment.content.manifest.batchCount) = .ok batches ∧
      segment.content.index =
        sortByKey AuthenticatedEventIndexEntryV2.eventId (indexEntries batches)
  sealed : ∀ segment, d.sealedProducts = some segment → segment.resultId = r ∧
    ∃ data, d.dataCommit = some data ∧ data.resultDek = segment.resultDek ∧
      segment.content.manifest.eventIndex = data.content.manifest.eventIndex
  commitment : ∀ commitment, d.repositoryCommitment = some commitment →
    ∃ segment, d.sealedProducts = some segment ∧
      commitment = deriveRepositoryCommitment (sealCommitmentsOf segment.content)

variable {r : ResultId} {d d' : ResultDirectoryV2}

/-- A directory with a lock file and no other. -/
theorem directoryOk_made : DirectoryOk r { resultLock := true } :=
  ⟨rfl, by simp, by simp, by simp⟩

theorem DirectoryOk.request (h : DirectoryOk r d) {segment : SegmentV2 (List UInt8)} :
    DirectoryOk r { d with request := some segment } :=
  ⟨h.lock, fun data hdata => by
    obtain ⟨hid, _, hrest⟩ := h.data data hdata
    exact ⟨hid, rfl, hrest⟩, h.sealed, h.commitment⟩

/-- A new batch leaves the committed ones in front of it. -/
theorem DirectoryOk.batch (h : DirectoryOk r d) (segment : SegmentV2 BatchCommitInputV2) :
    DirectoryOk r { d with batches := d.batches ++ [segment] } := by
  refine ⟨h.lock, fun data hdata => ?_, h.sealed, h.commitment⟩
  obtain ⟨hid, hrequest, hcount, hindex, batches, hopened, hentries⟩ := h.data data hdata
  refine ⟨hid, hrequest, ?_, hindex, batches, ?_, hentries⟩
  · show _ ≤ (d.batches ++ [segment]).length
    rw [List.length_append]
    omega
  · rw [List.take_append_of_le_length hcount]
    exact hopened

theorem DirectoryOk.dataCommit (h : DirectoryOk r d) {key : ResultDekV1}
    {input : DataCommitInputV2} {index : List AuthenticatedEventIndexEntryV2}
    {manifest : DataManifestV2} {segmentOrdinal : Nat} (hnone : d.dataCommit = none)
    (hdata : dataCommitOf d r key input = .ok (index, manifest)) :
    DirectoryOk r { d with dataCommit := some ⟨r, key, segmentOrdinal, index, manifest⟩ } := by
  obtain ⟨hrequest, hcount, hindex, batches, hopened, hentries⟩ := dataCommitOf_ok hdata
  refine ⟨h.lock, ?_, ?_, h.commitment⟩
  · intro segment hsegment
    cases hsegment
    refine ⟨rfl, hrequest, Nat.le_of_eq hcount, hindex, batches, ?_, hentries⟩
    rw [hcount, List.take_length]
    exact hopened
  · intro segment hsegment
    -- what was sealed was sealed over a data commit
    obtain ⟨_, data, hcommitted, _⟩ := h.sealed segment hsegment
    rw [hnone] at hcommitted
    cases hcommitted

theorem DirectoryOk.sealedProducts (h : DirectoryOk r d) {key : ResultDekV1}
    {data : DataManifestV2} {segmentOrdinal : Nat} {products : List (List UInt8)}
    {digests : List LifecycleDigestV1} (hnone : d.sealedProducts = none)
    (hdata : d.readDataManifest r key = .ok data) :
    DirectoryOk r { d with
      sealedProducts :=
        some ⟨r, key, segmentOrdinal, products, finalManifestOf r data digests⟩ } := by
  obtain ⟨content, hfile, rfl⟩ := except_map_eq_ok.mp hdata
  refine ⟨h.lock, h.data, ?_, ?_⟩
  · intro segment hsegment
    cases hsegment
    exact ⟨rfl, _, openFile_ok hfile, rfl, rfl⟩
  · intro commitment hcommitment
    obtain ⟨segment, hsealed, _⟩ := h.commitment commitment hcommitment
    rw [hnone] at hsealed
    cases hsealed

/-! ## What the record promises -/

/-- The directory holds the data commit of all its batches. -/
def Committed (d : ResultDirectoryV2) (key : ResultDekV1) : Prop :=
  ∃ segment, d.dataCommit = some segment ∧ segment.resultDek = key ∧
    segment.content.manifest.batchCount = d.batches.length

/-- And the products that were sealed. -/
def SealedAs (d : ResultDirectoryV2) (record : ResultAuthorityRecordV2) (key : ResultDekV1) :
    Prop :=
  Committed d key ∧ ∃ segment, d.sealedProducts = some segment ∧ segment.resultDek = key ∧
    record.sealCommitments = sealCommitmentsOf segment.content

/-- And the repository commitment. -/
def Visible (d : ResultDirectoryV2) (record : ResultAuthorityRecordV2) (key : ResultDekV1) :
    Prop :=
  SealedAs d record key ∧
    d.repositoryCommitment = some (deriveRepositoryCommitment record.sealCommitments)

/-- The directories that belong to a record. -/
def Stage (record : ResultAuthorityRecordV2) (key : ResultDekV1)
    (staging final : Option ResultDirectoryV2) : Prop :=
  match record.state with
  | .opened => final = none
  | .dataCommitted => final = none ∧ ∃ d, staging = some d ∧ Committed d key
  | .sealed => record.hasPendingNonceReservation = false ∧
      ((final = none ∧ ∃ d, staging = some d ∧ SealedAs d record key) ∨
        (staging = none ∧ ∃ d, final = some d ∧ Visible d record key))
  | .published => staging = none ∧
      record.repositoryCommitment = deriveRepositoryCommitment record.sealCommitments ∧
      ∃ d, final = some d ∧ Visible d record key

variable {record record' : ResultAuthorityRecordV2} {key : ResultDekV1}
  {staging final : Option ResultDirectoryV2}

/-- Never two directories. -/
theorem Stage.single (h : Stage record key staging final) : staging = none ∨ final = none := by
  unfold Stage at h
  cases hstate : record.state with
  | opened => rw [hstate] at h; exact .inr h
  | dataCommitted => rw [hstate] at h; exact .inr h.1
  | «sealed» =>
      rw [hstate] at h
      rcases h.2 with ⟨hfinal, _⟩ | ⟨hstaging, _⟩
      · exact .inr hfinal
      · exact .inl hstaging
  | published => rw [hstate] at h; exact .inl h.1

/-- Before publication, a staging directory is all there is. -/
theorem Stage.opened (hstate : record.state = .opened) :
    Stage record key staging final ↔ final = none := by
  unfold Stage
  rw [hstate]

theorem Stage.dataCommitted (hstate : record.state = .dataCommitted) :
    Stage record key staging final ↔
      final = none ∧ ∃ d, staging = some d ∧ Committed d key := by
  unfold Stage
  rw [hstate]

theorem Stage.sealed (hstate : record.state = .sealed) :
    Stage record key staging final ↔ record.hasPendingNonceReservation = false ∧
      ((final = none ∧ ∃ d, staging = some d ∧ SealedAs d record key) ∨
        (staging = none ∧ ∃ d, final = some d ∧ Visible d record key)) := by
  unfold Stage
  rw [hstate]

theorem Stage.published (hstate : record.state = .published) :
    Stage record key staging final ↔ staging = none ∧
      record.repositoryCommitment = deriveRepositoryCommitment record.sealCommitments ∧
      ∃ d, final = some d ∧ Visible d record key := by
  unfold Stage
  rw [hstate]

/-- Files that the promise does not speak of may change. -/
theorem Stage.staging_congr (h : Stage record key (some d) final)
    (hdata : d'.dataCommit = d.dataCommit) (hbatches : d'.batches = d.batches)
    (hsealed : d'.sealedProducts = d.sealedProducts) : Stage record key (some d') final := by
  have hcommitted : Committed d key → Committed d' key := by
    rintro ⟨segment, hsegment, hrest⟩
    exact ⟨segment, hdata.trans hsegment, by rw [hbatches]; exact hrest⟩
  unfold Stage at h ⊢
  cases hstate : record.state with
  | opened => rw [hstate] at h; exact h
  | dataCommitted =>
      rw [hstate] at h
      obtain ⟨hfinal, _, hd, hc⟩ := h
      cases hd
      exact ⟨hfinal, d', rfl, hcommitted hc⟩
  | «sealed» =>
      rw [hstate] at h
      obtain ⟨hpending, ⟨hfinal, _, hd, hc, segment, hsegment, hrest⟩ | ⟨hnone, _⟩⟩ := h
      · cases hd
        exact ⟨hpending, .inl ⟨hfinal, d', rfl, hcommitted hc, segment,
          hsealed.trans hsegment, hrest⟩⟩
      · cases hnone
  | published => rw [hstate] at h; cases h.1

/-- Nonces do not matter, as long as none is pending once the result is
sealed. -/
theorem Stage.nonces (hsame : record'.withoutNonces = record.withoutNonces)
    (hpending : record.state = .sealed → record'.hasPendingNonceReservation = false)
    (h : Stage record key staging final) : Stage record' key staging final := by
  have hstate := ResultAuthorityRecordV2.state_of_withoutNonces hsame
  have hcommitments := congrArg ResultAuthorityRecordV2.sealCommitments hsame
  have hrepository := congrArg ResultAuthorityRecordV2.repositoryCommitment hsame
  replace hcommitments : record'.sealCommitments = record.sealCommitments := hcommitments
  replace hrepository : record'.repositoryCommitment = record.repositoryCommitment := hrepository
  unfold Stage Visible SealedAs at *
  rw [hstate, hcommitments, hrepository]
  cases hsealed : record.state with
  | «sealed» =>
      rw [hsealed] at h
      exact ⟨hpending hsealed, h.2⟩
  | _ => rw [hsealed] at h; exact h

end Files

section Invariant

/-- In every effect on its own result nothing stands in the way. -/
def always (_ : Option ResultLifecycleStateV1) : Prop := True

theorem DirectoryEffect.stage {A : Type} [Sha256] [SnapshotFormatV2] {r : ResultId}
    {s : RepositoryV2 A} {record : ResultAuthorityRecordV2}
    {key : ResultDekV1} {d : ResultDirectoryV2} (heffect : DirectoryEffect always r s record key d)
    (h : Stage record key s.staging[r]? s.finals[r]?) :
    Stage record key (some d) s.finals[r]? := by
  cases heffect with
  | make hstaging hclear =>
      -- a result past `opened` has a directory, and it is not a final one
      rw [hstaging, hclear trivial] at h
      rw [hclear trivial]
      cases hstate : record.state with
      | opened => exact (Stage.opened hstate).mpr rfl
      | dataCommitted =>
          obtain ⟨_, _, hnone, _⟩ := (Stage.dataCommitted hstate).mp h
          cases hnone
      | «sealed» =>
          rcases ((Stage.sealed hstate).mp h).2 with ⟨_, _, hnone, _⟩ | ⟨_, _, hnone, _⟩
          · cases hnone
          · cases hnone
      | published =>
          obtain ⟨_, _, _, hnone, _⟩ := (Stage.published hstate).mp h
          cases hnone
  | lock hstaging => rw [hstaging] at h; exact h.staging_congr rfl rfl rfl
  | request hstaging _ => rw [hstaging] at h; exact h.staging_congr rfl rfl rfl
  | batch hstate _ => exact (Stage.opened hstate).mpr ((Stage.opened hstate).mp h)
  | dataCommit hstate _ _ _ => exact (Stage.opened hstate).mpr ((Stage.opened hstate).mp h)
  | sealedProducts hstate hstaging _ _ =>
      obtain ⟨hfinal, d', hd', hcommitted⟩ := (Stage.dataCommitted hstate).mp h
      rw [hstaging] at hd'
      cases hd'
      exact (Stage.dataCommitted hstate).mpr ⟨hfinal, _, rfl, hcommitted⟩
  | commitment hstate hstaging hcommitment =>
      rw [hstaging] at h
      rw [ensureCommitment_ok hcommitment]
      exact h.staging_congr rfl rfl rfl

variable {A : Type} [KeyAuthorityV2 A] [Sha256] [LawfulKeyAuthorityV2 A] [SnapshotFormatV2]

/-- The invariant of one result. -/
structure Intact (r : ResultId) (s : RepositoryV2 A) : Prop where
  staging : ∀ d, s.staging[r]? = some d → DirectoryOk r d
  final : ∀ d, s.finals[r]? = some d → DirectoryOk r d
  stage : ∀ record key, stored s.authority r = some (record, key) →
    Stage record key s.staging[r]? s.finals[r]?

variable {r : ResultId} {s s' : RepositoryV2 A} {D S : Prop}

theorem Intact.of_frame (hframe : Frame r s s') (h : Intact r s) : Intact r s' := by
  refine ⟨?_, ?_, ?_⟩
  · rw [hframe.staging]; exact h.staging
  · rw [hframe.final]; exact h.final
  · rw [hframe.staging, hframe.final, hframe.stored]; exact h.stage

theorem RecordEffect.stage {record' : ResultAuthorityRecordV2} {key : ResultDekV1}
    (heffect : RecordEffect always D S r s (some (record', key))) (h : Intact r s) :
    Stage record' key s.staging[r]? s.finals[r]? := by
  cases heffect with
  | fresh _ hopened hclear => exact (Stage.opened hopened).mpr (hclear trivial)
  | @nonces record _ _ d hstored hstaging hsame hpending =>
      refine (h.stage _ _ hstored).nonces hsame fun hsealed => ?_
      rcases hpending with hrank | hrequest | hpending
      · rw [hsealed] at hrank
        exact absurd hrank (by decide)
      · -- a sealed result has its request file
        have hstage := (Stage.sealed hsealed).mp (h.stage _ _ hstored)
        rcases hstage.2 with ⟨_, d', hd', ⟨⟨segment, hsegment, _⟩, _⟩⟩ | ⟨hnone, _⟩
        · rw [hstaging] at hd'
          cases hd'
          have hsome := ((h.staging d hstaging).data segment hsegment).2.1
          rw [hrequest] at hsome
          cases hsome
        · rw [hstaging] at hnone
          cases hnone
      · exact hpending
  | @commitData record _ _ _ _ _ _ hstored hcommit hdata =>
      have hstage := h.stage _ _ hstored
      rcases (ResultAuthorityRecordV2.commitData_ok hcommit).2 with ⟨_, rfl⟩ | ⟨hopened, _, rfl⟩
      · exact hstage
      · obtain ⟨d, segment, data, input, index, hstaging, hsegment, hopen, hcommitted⟩ :=
          hdata hopened
        refine (Stage.dataCommitted rfl).mpr ⟨(Stage.opened hopened).mp hstage, d, hstaging,
          segment, hsegment, ?_⟩
        rw [SegmentV2.opened_ok hopen]
        exact ⟨rfl, (dataCommitOf_ok hcommitted).2.1⟩
  | sealResult hstored hseal hsealed =>
      have hstage := h.stage _ _ hstored
      rcases (ResultAuthorityRecordV2.seal_ok hseal).2 with ⟨_, rfl⟩ | ⟨hcommitted, rfl⟩
      · exact hstage
      · obtain ⟨_, hpending, d, segment, sealed, hstaging, hsegment, hopen, hcommitments⟩ :=
          hsealed hcommitted
        obtain ⟨hfinal, d', hd', hdata⟩ := (Stage.dataCommitted hcommitted).mp hstage
        rw [hstaging] at hd'
        cases hd'
        refine (Stage.sealed rfl).mpr ⟨hpending, .inl ⟨hfinal, d, hstaging, hdata, segment,
          hsegment, ?_⟩⟩
        rw [SegmentV2.opened_ok hopen]
        exact ⟨rfl, hcommitments⟩
  | publish hstored hpublish hinstalled =>
      have hstage := h.stage _ _ hstored
      rcases (ResultAuthorityRecordV2.publish_ok hpublish).2 with
        ⟨_, rfl⟩ | ⟨hsealed, _, _, rfl⟩
      · exact hstage
      · obtain ⟨hnone, hdigest⟩ := hinstalled hsealed
        rcases ((Stage.sealed hsealed).mp hstage).2 with ⟨_, d, hd, _⟩ | ⟨_, d, hd, hvisible⟩
        · rw [hnone] at hd
          cases hd
        · exact (Stage.published rfl).mpr ⟨hnone, hdigest, d, hd, hvisible⟩

theorem DirectoryEffect.directoryOk {record : ResultAuthorityRecordV2} {key : ResultDekV1}
    {d : ResultDirectoryV2} (heffect : DirectoryEffect always r s record key d)
    (hstored : stored s.authority r = some (record, key)) (h : Intact r s) :
    DirectoryOk r d := by
  cases heffect with
  | make _ _ => exact directoryOk_made
  | lock hstaging =>
      have hok := h.staging _ hstaging
      exact ⟨rfl, hok.data, hok.sealed, hok.commitment⟩
  | request hstaging _ => exact (h.staging _ hstaging).request
  | batch _ hstaging => exact (h.staging _ hstaging).batch _
  | dataCommit _ hstaging hnone hdata => exact (h.staging _ hstaging).dataCommit hnone hdata
  | sealedProducts _ hstaging hnone hdata =>
      exact (h.staging _ hstaging).sealedProducts hnone hdata
  | commitment hsealed hstaging hcommitment =>
      have hok := h.staging _ hstaging
      rw [ensureCommitment_ok hcommitment]
      refine ⟨hok.lock, hok.data, hok.sealed, fun commitment hfile => ?_⟩
      cases hfile
      rcases ((Stage.sealed hsealed).mp (h.stage _ _ hstored)).2 with
        ⟨_, d', hd', _, segment, hsegment, _, hcommitments⟩ | ⟨hnone, _⟩
      · rw [hstaging] at hd'
        cases hd'
        exact ⟨segment, hsegment, by rw [hcommitments]⟩
      · rw [hstaging] at hnone
        cases hnone

/-- A directory of a known result is where it belongs. -/
theorem Intact.not_misplaced {record : ResultAuthorityRecordV2} {key : ResultDekV1}
    (h : Intact r s) (hstored : stored s.authority r = some (record, key)) :
    ¬Misplaced r s := by
  rintro (hnone | ⟨hstaging, hfinal⟩ | ⟨d, hd, hlock⟩)
  · rw [hstored] at hnone
    cases hnone
  · rcases (h.stage _ _ hstored).single with hnone | hnone
    · rw [hnone] at hstaging; cases hstaging
    · rw [hnone] at hfinal; cases hfinal
  · have hlocked : d.resultLock = true := by
      rcases hd with hd | hd
      · exact (h.staging d hd).lock
      · exact (h.final d hd).lock
    rw [hlocked] at hlock
    cases hlock

/-- Every effect keeps the invariant. -/
theorem Effect.intact (heffect : Effect always D S r s s') (h : Intact r s) : Intact r s' := by
  cases heffect with
  | record hstep heffect =>
      refine ⟨h.staging, h.final, fun record key hstored => ?_⟩
      rw [hstep.stored_eq, Function.update_self] at hstored
      subst hstored
      exact heffect.stage h
  | reserve _ _ _ hsame =>
      refine ⟨h.staging, h.final, fun record key hstored => ?_⟩
      rw [hsame] at hstored
      exact h.stage record key hstored
  | @staging record key d hstored heffect =>
      refine ⟨fun d' hd' => ?_, h.final, fun record' key' hstored' => ?_⟩
      · simp only [ExtTreeMap.getElem?_insert_self, Option.some.injEq] at hd'
        subst hd'
        exact heffect.directoryOk hstored h
      · rw [hstored] at hstored'
        cases hstored'
        rw [ExtTreeMap.getElem?_insert_self]
        exact heffect.stage (h.stage _ _ hstored)
  | @install record key d hstored hstate hstaging hfinal hlock hcommitment =>
      refine ⟨fun d' hd' => ?_, fun d' hd' => ?_, fun record' key' hstored' => ?_⟩
      · simp at hd'
      · simp only [ExtTreeMap.getElem?_insert_self, Option.some.injEq] at hd'
        subst hd'
        exact h.staging d hstaging
      · rw [hstored] at hstored'
        cases hstored'
        rw [ExtTreeMap.getElem?_insert_self, ExtTreeMap.getElem?_erase_self]
        obtain ⟨hpending, hwhere⟩ := (Stage.sealed hstate).mp (h.stage _ _ hstored)
        rcases hwhere with ⟨_, d', hd', hsealed⟩ | ⟨hnone, _⟩
        · rw [hstaging] at hd'
          cases hd'
          exact (Stage.sealed hstate).mpr ⟨hpending, .inr ⟨rfl, d, rfl, hsealed, hcommitment⟩⟩
        · rw [hstaging] at hnone
          cases hnone
  | quarantine hmisplaced hauthority hstaging hfinals =>
      refine ⟨fun d hd => ?_, fun d hd => ?_, fun record key hstored => ?_⟩
      · rcases hstaging r with hsame | ⟨_, hnone⟩
        · exact h.staging d (hsame.symm.trans hd)
        · rw [hnone] at hd; cases hd
      · rcases hfinals r with hsame | ⟨_, hnone⟩
        · exact h.final d (hsame.symm.trans hd)
        · rw [hnone] at hd; cases hd
      · rw [hauthority] at hstored
        exact absurd hmisplaced (h.not_misplaced hstored)
  | remove hnone =>
      refine ⟨fun d hd => ?_, fun d hd => ?_, fun record key hstored => ?_⟩
      · simp at hd
      · simp at hd
      · rw [show stored s.authority r = some (record, key) from hstored] at hnone
        cases hnone

theorem Moves.intact (h : Moves always D r s s') (hs : Intact r s) : Intact r s' :=
  h.invariant Intact.of_frame Effect.intact hs

end Invariant

end RepositoryV2

end Evidentrail
