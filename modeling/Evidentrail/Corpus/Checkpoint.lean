import Evidentrail.Corpus.History

/-!
# The checkpoint and the data

A checkpoint says that everything up to it has been stored. It is written
after the pages of its partition, in another transaction, and partitions
overlap in their bounds; what is shown here is that no order of runs, failures
and stops brings it ahead of the records of an honest provider. Against any
provider, records stay in the partition they were asked for.
-/

namespace Evidentrail

open Rust Attempt

/-! ## Providers -/

section Providers

variable {σ : Type}

/-- The pages of a partition fetched one after another, and the token that
comes with the last of them. -/
inductive HistoryPageSourceV1.Chain (source : HistoryPageSourceV1 σ)
    (partition : HistoryPartitionV1) :
    σ → Option (List UInt8) → List HistoryPageV1 → σ → Option (List UInt8) → Prop
  | one {s s' : σ} {token : Option (List UInt8)} {page : HistoryPageV1}
      (h : source.fetchPage s partition token = (.ok page, s')) :
      Chain source partition s token [page] s' page.nextToken
  | more {s s' s'' : σ} {token last : Option (List UInt8)} {next : List UInt8}
      {page : HistoryPageV1} {pages : List HistoryPageV1}
      (h : source.fetchPage s partition token = (.ok page, s'))
      (hnext : page.nextToken = some next)
      (hrest : Chain source partition s' (some next) pages s'' last) :
      Chain source partition s token (page :: pages) s'' last

/-- The pages of a partition hold its records of the dataset and nothing else,
once the chain of tokens has come to its end. -/
structure HistoryPageSourceV1.Honest (source : HistoryPageSourceV1 σ)
    (dataset : List HistoryRecordV1) : Prop where
  only : ∀ {partition : HistoryPartitionV1} {s s' : σ} {pages : List HistoryPageV1}
    {last : Option (List UInt8)}, source.Chain partition s none pages s' last →
      ∀ page ∈ pages, ∀ record ∈ page.records,
        record ∈ dataset ∧ partition.contains record = true
  all : ∀ {partition : HistoryPartitionV1} {s s' : σ} {pages : List HistoryPageV1},
    source.Chain partition s none pages s' none →
      ∀ record ∈ dataset, partition.contains record = true →
        ∃ page ∈ pages, record ∈ page.records

end Providers

/-- Every record of the dataset from 0 up to the checkpoint is stored, and
nothing but records of the dataset, each once. -/
structure HistoryStore.Behind (store : HistoryStore) (dataset : List HistoryRecordV1) : Prop where
  stored : ∀ completedThrough, store.completedThroughMillis = some completedThrough →
    ∀ record ∈ dataset, 0 ≤ record.eventTimestampMillis →
      record.eventTimestampMillis ≤ completedThrough → record ∈ store.tables.historyRecords
  only : ∀ record ∈ store.tables.historyRecords, record ∈ dataset
  once : (store.tables.historyRecords.map HistoryRecordV1.nativeId).Nodup

/-! ## Single calls -/

section Calls

variable {σ β : Type} {w : HistoryWorld σ}

theorem returns_interrupt {R : Except Interruption β → HistoryWorld σ → Prop}
    {f : Unit → HistoryM σ β} (herror : ∀ e script, R (.error e) { w with script })
    (hok : ∀ script, Returns R (f ()) { w with script }) : Returns R (interrupt >>= f) w := by
  obtain ⟨store, source, script, answers⟩ := w
  refine returns_bind (fun e w' hrun => ?_) (fun _ w' hrun => ?_)
  · cases script with
    | nil => cases hrun
    | cons first rest =>
        cases first with
        | none => cases hrun
        | some interruption =>
            cases hrun
            exact herror _ rest
  · cases script with
    | nil =>
        cases hrun
        exact hok []
    | cons first rest =>
        cases first with
        | none =>
            cases hrun
            exact hok rest
        | some interruption => cases hrun

theorem returns_fetchPage {source : HistoryPageSourceV1 σ} {partition : HistoryPartitionV1}
    {token : Option (List UInt8)} {R : Except Interruption HistoryPageV1 → HistoryWorld σ → Prop}
    (herror : ∀ e script s, R (.error e) { w with script, source := s })
    (hok : ∀ page script s, source.fetchPage w.source partition token = (.ok page, s) →
      R (.ok page) { w with
        script, source := s, answers := w.answers ++ [(partition, page)] }) :
    Returns R (fetchPage source partition token) w := by
  refine returns_interrupt (fun e script => herror e script w.source) fun script => ?_
  unfold Returns
  dsimp only
  cases hfetch : source.fetchPage w.source partition token with
  | mk result s =>
      cases result with
      | ok page => exact hok page script s hfetch
      | error e => exact herror (.failed e) script s

theorem returns_checkpoint {R : Except Interruption (Option Int) → HistoryWorld σ → Prop}
    (herror : ∀ e script, R (.error e) { w with script })
    (hok : ∀ script, R (.ok w.store.completedThroughMillis) { w with script }) :
    Returns R checkpoint w :=
  returns_interrupt herror hok

theorem returns_completePartition {completedThrough : Int}
    {R : Except Interruption Unit → HistoryWorld σ → Prop}
    (herror : ∀ e script, R (.error e) { w with script })
    (hok : ∀ script, w.store.completedThroughMillis.getD 0 < completedThrough →
      R (.ok ()) { w with
        script, store := { w.store with completedThroughMillis := some completedThrough } }) :
    Returns R (completePartition completedThrough) w := by
  refine returns_interrupt herror fun script => ?_
  unfold Returns HistoryStore.completePartitionChecked
  dsimp only
  by_cases hle : completedThrough ≤ w.store.completedThroughMillis.getD 0
  · rw [if_pos hle]
    exact herror (.failed .store) script
  · rw [if_neg hle]
    exact hok script (Int.not_le.mp hle)

variable [Sha256] [LogModel] [Rowids]

/-- What a committed page does to the records. -/
structure Stored (before : List HistoryRecordV1) (records after : List HistoryRecordV1) :
    Prop where
  kept : ∀ record ∈ before, record ∈ after
  added : ∀ record ∈ records, record ∈ after
  only : ∀ record ∈ after, record ∈ before ∨ record ∈ records
  once : (before.map HistoryRecordV1.nativeId).Nodup → (after.map HistoryRecordV1.nativeId).Nodup

theorem stored_record {t t' : Tables} {record : HistoryRecordV1}
    (h : commitRecord t record = .ok t') :
    Stored t.historyRecords [record] t'.historyRecords := by
  rcases commitRecord_ok h with ⟨hmem, rfl⟩ | ⟨hnew, indexed, hindex, hedge⟩
  · refine ⟨fun _ h => h, fun found hfound => ?_, fun _ h => .inl h, id⟩
    rw [List.mem_singleton.mp hfound]
    exact hmem
  · have hafter : t'.historyRecords = t.historyRecords ++ [record] := by
      have hindexed := historyRecords_indexNewRecord hindex
      rcases indexNewEdge_ok hedge with ⟨rfl, _⟩ | ⟨edge, serviceEdges, _, _, _, rfl⟩
      · exact hindexed
      · exact hindexed
    rw [hafter]
    exact ⟨fun _ h => List.mem_append_left _ h, fun _ h => List.mem_append_right _ h,
      fun _ h => List.mem_append.mp h, fun h => Table.nodup_append_row h hnew⟩

theorem stored_page {t t' : Tables} {records : List HistoryRecordV1}
    (h : records.foldlM commitRecord t = .ok t') :
    Stored t.historyRecords records t'.historyRecords := by
  induction records generalizing t with
  | nil =>
      cases h
      exact ⟨fun _ h => h, by simp, fun _ h => .inl h, id⟩
  | cons record rest ih =>
      rw [List.foldlM_cons] at h
      obtain ⟨next, hnext, h⟩ := except_bind_eq_ok.mp h
      have hfirst := stored_record hnext
      have hrest := ih h
      refine ⟨fun found hfound => hrest.kept _ (hfirst.kept _ hfound), fun found hfound => ?_,
        fun found hfound => ?_, fun hnodup => hrest.once (hfirst.once hnodup)⟩
      · rcases List.mem_cons.mp hfound with rfl | hfound
        · exact hrest.kept _ (hfirst.added _ (List.mem_singleton_self _))
        · exact hrest.added _ hfound
      · rcases hrest.only found hfound with hbefore | hpage
        · rcases hfirst.only found hbefore with hbefore | hrecord
          · exact .inl hbefore
          · exact .inr (List.mem_cons.mpr (.inl (List.mem_singleton.mp hrecord)))
        · exact .inr (List.mem_cons_of_mem _ hpage)

theorem returns_commitPage {records : List HistoryRecordV1}
    {R : Except Interruption Unit → HistoryWorld σ → Prop}
    (herror : ∀ e script, R (.error e) { w with script })
    (hok : ∀ script tables, Stored w.store.tables.historyRecords records tables.historyRecords →
      R (.ok ()) { w with script, store := { w.store with tables } }) :
    Returns R (commitPage records) w := by
  refine returns_interrupt herror fun script => ?_
  unfold Returns
  dsimp only
  rcases commitPage_cases none w.store.tables records with ⟨t', hcommit, hpage⟩ | ⟨e, hpage⟩
  · rw [hpage]
    exact hok script t' (stored_page hcommit)
  · rw [hpage]
    cases e with
    | walPressure => exact herror (.failed .storeWalPressure) script
    | _ => exact herror (.failed .store) script

end Calls

/-! ## One partition -/

section Partitions

variable {σ : Type} {source : HistoryPageSourceV1 σ} {limits : HistorySyncLimitsV1}
  {partition : HistoryPartitionV1} {w w' : HistoryWorld σ} {token : Option (List UInt8)}
  {page : HistoryPageV1} {pages : List HistoryPageV1}

/-- What was done with pages that were fetched one after another. -/
structure Fetched (source : HistoryPageSourceV1 σ) (partition : HistoryPartitionV1)
    (token : Option (List UInt8)) (w w' : HistoryWorld σ) (pages : List HistoryPageV1) :
    Prop where
  checkpoint : w'.store.completedThroughMillis = w.store.completedThroughMillis
  answers : w'.answers = w.answers ++ pages.map fun page => (partition, page)
  kept : ∀ record ∈ w.store.tables.historyRecords, record ∈ w'.store.tables.historyRecords
  only : ∀ record ∈ w'.store.tables.historyRecords, record ∈ w.store.tables.historyRecords ∨
    ∃ page ∈ pages, record ∈ page.records ∧ partition.contains record = true
  once : (w.store.tables.historyRecords.map HistoryRecordV1.nativeId).Nodup →
    (w'.store.tables.historyRecords.map HistoryRecordV1.nativeId).Nodup
  chain : pages = [] ∨ ∃ s last, source.Chain partition w.source token pages s last

theorem fetched_nothing {script : List (Option Interruption)} {s : σ} :
    Fetched source partition token w { w with script, source := s } [] :=
  ⟨rfl, by simp, fun _ h => h, fun _ h => .inl h, id, .inl rfl⟩

/-- A page that is not committed. -/
theorem fetched_unused {script : List (Option Interruption)} {s : σ}
    (hfetch : source.fetchPage w.source partition token = (.ok page, s)) :
    Fetched source partition token w
      { w with script, source := s, answers := w.answers ++ [(partition, page)] } [page] :=
  ⟨rfl, rfl, fun _ h => h, fun _ h => .inl h, id, .inr ⟨_, _, .one hfetch⟩⟩

/-- A page that is committed. -/
theorem fetched_page (script : List (Option Interruption)) {s : σ} {tables : Tables}
    (hfetch : source.fetchPage w.source partition token = (.ok page, s))
    (haccepts : acceptsRecords limits partition page = true)
    (hstored : Stored w.store.tables.historyRecords page.records tables.historyRecords) :
    Fetched source partition token w
      { w with
        script, source := s, answers := w.answers ++ [(partition, page)]
        store := { w.store with tables } } [page] := by
  refine ⟨rfl, rfl, hstored.kept, fun record hrecord => ?_, hstored.once,
    .inr ⟨_, _, .one hfetch⟩⟩
  rcases hstored.only record hrecord with hbefore | hpage
  · exact .inl hbefore
  · simp only [acceptsRecords, Bool.and_eq_true, List.all_eq_true] at haccepts
    exact .inr ⟨page, List.mem_singleton_self _, hpage, (haccepts.2 record hpage).2⟩

theorem Fetched.cons {w'' : HistoryWorld σ} {next : List UInt8}
    (h : Fetched source partition token w w' [page])
    (hfetch : source.fetchPage w.source partition token = (.ok page, w'.source))
    (hnext : page.nextToken = some next)
    (hrest : Fetched source partition (some next) w' w'' pages) :
    Fetched source partition token w w'' (page :: pages) where
  checkpoint := hrest.checkpoint.trans h.checkpoint
  answers := by
    rw [hrest.answers, h.answers, List.append_assoc]
    rfl
  kept record hrecord := hrest.kept record (h.kept record hrecord)
  only record hrecord := by
    rcases hrest.only record hrecord with hbefore | ⟨found, hfound, hmem⟩
    · rcases h.only record hbefore with hbefore | ⟨found, hfound, hmem⟩
      · exact .inl hbefore
      · exact .inr ⟨found, List.mem_cons.mpr (.inl (List.mem_singleton.mp hfound)), hmem⟩
    · exact .inr ⟨found, List.mem_cons_of_mem _ hfound, hmem⟩
  once hnodup := hrest.once (h.once hnodup)
  chain := by
    rcases hrest.chain with rfl | ⟨s, last, hchain⟩
    · exact .inr ⟨_, _, .one hfetch⟩
    · exact .inr ⟨s, last, .more hfetch hnext hchain⟩

/-- A whole partition was stored. -/
def Whole (source : HistoryPageSourceV1 σ) (partition : HistoryPartitionV1)
    (token : Option (List UInt8)) (w w' : HistoryWorld σ) (pages : List HistoryPageV1) : Prop :=
  (∃ s, source.Chain partition w.source token pages s none) ∧
    ∀ page ∈ pages, ∀ record ∈ page.records, record ∈ w'.store.tables.historyRecords

variable [Sha256] [LogModel] [Rowids]

/-- However the loop over the pages ends, it ends after pages that were
fetched one after another, and after all of them if it does not stop the run. -/
theorem returns_pageLoop (source : HistoryPageSourceV1 σ) (limits : HistorySyncLimitsV1)
    (partition : HistoryPartitionV1) (remaining : Nat) (token : Option (List UInt8))
    (seenTokens : List (List UInt8)) (receipt : HistorySyncReceiptV1) (w : HistoryWorld σ) :
    Returns (fun result w' => ∃ pages, Fetched source partition token w w' pages ∧
        pages.length ≤ remaining ∧ ∀ receipt' done, result = .ok (receipt', done) →
          receipt'.completedThroughMillis = receipt.completedThroughMillis ∧
          (done = true → receipt'.status = .partialPageLimit) ∧
          (done = false → Whole source partition token w w' pages))
      (pageLoop source limits partition remaining token seenTokens receipt) w := by
  induction remaining generalizing token seenTokens receipt w with
  | zero =>
      refine returns_pure ⟨[], fetched_nothing, Nat.le_refl 0, fun receipt' done hresult => ?_⟩
      cases hresult
      exact ⟨rfl, fun _ => rfl, fun h => by cases h⟩
  | succ remaining ih =>
      refine returns_first (returns_fetchPage (fun e script s => ?_) fun page script s hfetch => ?_)
      · exact ⟨[], fetched_nothing, Nat.zero_le _, fun _ _ hresult => by cases hresult⟩
      · -- from here on the page is fetched, committed or not
        have hunused : ∀ script, ∃ pages, Fetched source partition token w
            { w with script, source := s, answers := w.answers ++ [(partition, page)] } pages ∧
            pages.length ≤ remaining + 1 := fun script =>
          ⟨[page], fetched_unused hfetch, Nat.succ_le_succ (Nat.zero_le _)⟩
        refine returns_require (fun _ => ?_) fun haccepts =>
          returns_require (fun _ => ?_) fun _ => ?_
        · obtain ⟨pages, hfetched, hlength⟩ := hunused script
          exact ⟨pages, hfetched, hlength, fun _ _ hresult => by cases hresult⟩
        · obtain ⟨pages, hfetched, hlength⟩ := hunused script
          exact ⟨pages, hfetched, hlength, fun _ _ hresult => by cases hresult⟩
        · refine returns_first (returns_commitPage (fun e script => ?_)
            fun script tables hstored => ?_)
          · obtain ⟨pages, hfetched, hlength⟩ := hunused script
            exact ⟨pages, hfetched, hlength, fun _ _ hresult => by cases hresult⟩
          · have hpage := fetched_page script hfetch haccepts hstored
            cases hnext : page.nextToken with
            | none =>
                refine returns_pure ⟨[page], hpage, Nat.succ_le_succ (Nat.zero_le _),
                  fun receipt' done hresult => ?_⟩
                cases hresult
                refine ⟨rfl, fun h => (by cases h), fun _ => ⟨⟨s, ?_⟩, fun found hfound => ?_⟩⟩
                · rw [← hnext]
                  exact .one hfetch
                · rw [List.mem_singleton.mp hfound]
                  exact hstored.added
            | some next =>
                obtain ⟨pages, hrest, hlength, hresult⟩ := ih (some next) (next :: seenTokens)
                  { receipt with
                    committedPages := receipt.committedPages + 1
                    submittedRecords := receipt.submittedRecords + page.records.length }
                  { w with
                    script, source := s, answers := w.answers ++ [(partition, page)]
                    store := { w.store with tables } }
                refine ⟨page :: pages, hpage.cons hfetch hnext hrest,
                  Nat.succ_le_succ hlength, fun receipt' done hok => ?_⟩
                obtain ⟨hcompleted, hstatus, hwhole⟩ := hresult receipt' done hok
                refine ⟨hcompleted, hstatus, fun hdone => ?_⟩
                obtain ⟨⟨last, hchain⟩, hall⟩ := hwhole hdone
                refine ⟨⟨last, .more hfetch hnext hchain⟩, fun found hfound => ?_⟩
                rcases List.mem_cons.mp hfound with rfl | hfound
                · exact fun record hrecord => hrest.kept record (hstored.added record hrecord)
                · exact hall found hfound

end Partitions

/-! ## All partitions -/

section Runs

variable {σ : Type} {source : HistoryPageSourceV1 σ} {limits : HistorySyncLimitsV1}
  {w w' w'' : HistoryWorld σ} {m n : Nat}

/-- What a part of a run does, with `bound` answers of the provider at most. -/
structure Progress (source : HistoryPageSourceV1 σ) (bound : Nat) (w w' : HistoryWorld σ) :
    Prop where
  answers : ∃ new, w'.answers = w.answers ++ new ∧ new.length ≤ bound
  confined : ∀ record ∈ w'.store.tables.historyRecords,
    record ∈ w.store.tables.historyRecords ∨ ∃ answer ∈ w'.answers,
      record ∈ answer.2.records ∧ answer.1.contains record = true
  advances : ∀ completedThrough, w.store.completedThroughMillis = some completedThrough →
    ∃ later, w'.store.completedThroughMillis = some later ∧ completedThrough ≤ later
  behind : ∀ dataset, source.Honest dataset → w.store.Behind dataset → w'.store.Behind dataset

theorem progress_script {script : List (Option Interruption)} :
    Progress source 0 w { w with script } :=
  ⟨⟨[], by simp, Nat.le_refl 0⟩, fun _ h => .inl h, fun c h => ⟨c, h, le_rfl⟩, fun _ _ h => h⟩

theorem Progress.trans (h : Progress source m w w') (h' : Progress source n w' w'') :
    Progress source (m + n) w w'' where
  answers := by
    obtain ⟨new, hnew, hlength⟩ := h.answers
    obtain ⟨new', hnew', hlength'⟩ := h'.answers
    refine ⟨new ++ new', by rw [hnew', hnew, List.append_assoc], ?_⟩
    rw [List.length_append]
    omega
  confined record hrecord := by
    rcases h'.confined record hrecord with hbefore | hanswer
    · rcases h.confined record hbefore with hbefore | ⟨answer, hanswer, hmem⟩
      · exact .inl hbefore
      · obtain ⟨new', hnew', _⟩ := h'.answers
        rw [hnew']
        exact .inr ⟨answer, List.mem_append_left _ hanswer, hmem⟩
    · exact .inr hanswer
  advances c hc := by
    obtain ⟨later, hlater, hle⟩ := h.advances c hc
    obtain ⟨latest, hlatest, hle'⟩ := h'.advances later hlater
    exact ⟨latest, hlatest, hle.trans hle'⟩
  behind dataset hhonest hbehind := h'.behind dataset hhonest (h.behind dataset hhonest hbehind)

theorem Progress.mono (h : Progress source m w w') (hle : m ≤ n) : Progress source n w w' := by
  obtain ⟨new, hnew, hlength⟩ := h.answers
  exact { h with answers := ⟨new, hnew, hlength.trans hle⟩ }

variable {partition : HistoryPartitionV1} {pages : List HistoryPageV1}

theorem Fetched.progress (h : Fetched source partition none w w' pages) :
    Progress source pages.length w w' where
  answers := ⟨_, h.answers, by rw [List.length_map]⟩
  confined record hrecord := by
    rcases h.only record hrecord with hbefore | ⟨page, hpage, hmem⟩
    · exact .inl hbefore
    · refine .inr ⟨(partition, page), ?_, hmem⟩
      rw [h.answers]
      exact List.mem_append_right _ (List.mem_map_of_mem hpage)
  advances c hc := ⟨c, h.checkpoint.trans hc, le_rfl⟩
  behind dataset hhonest hbehind := by
    refine ⟨fun c hc record hrecord hlower hupper => ?_, fun record hrecord => ?_,
      h.once hbehind.once⟩
    · rw [h.checkpoint] at hc
      exact h.kept record (hbehind.stored c hc record hrecord hlower hupper)
    · rcases h.only record hrecord with hbefore | ⟨page, hpage, hmem, _⟩
      · exact hbehind.only record hbefore
      · rcases h.chain with rfl | ⟨s, last, hchain⟩
        · cases hpage
        · exact (hhonest.only hchain page hpage record hmem).1

/-- The checkpoint is moved after a whole partition that starts at it. -/
theorem Fetched.advance {start stop : Int} {script : List (Option Interruption)}
    (h : Fetched source ⟨start, stop⟩ none w w' pages)
    (hwhole : Whole source ⟨start, stop⟩ none w w' pages)
    (hstart : w.store.completedThroughMillis.getD 0 = start)
    (hlater : w'.store.completedThroughMillis.getD 0 < stop) :
    Progress source 0 w' { w' with
      script, store := { w'.store with completedThroughMillis := some stop } } where
  answers := ⟨[], by simp, Nat.le_refl 0⟩
  confined _ hrecord := .inl hrecord
  advances c hc := by
    rw [hc] at hlater
    exact ⟨stop, rfl, hlater.le⟩
  behind dataset hhonest hbehind := by
    refine ⟨fun c hc record hrecord hlower hupper => ?_, hbehind.only, hbehind.once⟩
    cases hc
    by_cases hbound : start ≤ record.eventTimestampMillis
    · obtain ⟨⟨s, hchain⟩, hall⟩ := hwhole
      have hcontains : (⟨start, stop⟩ : HistoryPartitionV1).contains record = true := by
        simp [HistoryPartitionV1.contains, hbound, hupper]
      obtain ⟨page, hpage, hmem⟩ := hhonest.all hchain record hrecord hcontains
      exact hall page hpage record hmem
    · -- older records are those of the checkpoint before
      cases hcheckpoint : w.store.completedThroughMillis with
      | none =>
          rw [hcheckpoint] at hstart
          exact absurd (hstart ▸ hlower) hbound
      | some c =>
          rw [hcheckpoint] at hstart
          refine hbehind.stored c (h.checkpoint.trans hcheckpoint) record hrecord hlower ?_
          simp only [Option.getD_some] at hstart
          omega

/-- What a forward pass does and reports. -/
def Synchronized (source : HistoryPageSourceV1 σ) (limits : HistorySyncLimitsV1)
    (highWater : Int) (w : HistoryWorld σ)
    (result : Except Interruption HistorySyncReceiptV1) (w' : HistoryWorld σ) : Prop :=
  Progress source (limits.maxPartitions * limits.maxPagesPerPartition) w w' ∧
    ∀ receipt, result = .ok receipt → receipt.status = .scannedToHighWater →
      w'.store.completedThroughMillis = some highWater

theorem synchronized_error (limits : HistorySyncLimitsV1) (highWater : Int) (e : Interruption)
    (script : List (Option Interruption)) :
    Synchronized source limits highWater w (.error e) { w with script } :=
  ⟨progress_script.mono (Nat.zero_le _), fun _ hresult => by cases hresult⟩

/-- What a replay does and reports. -/
def Reconciled (source : HistoryPageSourceV1 σ) (limits : HistorySyncLimitsV1)
    (w : HistoryWorld σ) (result : Except Interruption HistorySyncReceiptV1)
    (w' : HistoryWorld σ) : Prop :=
  Progress source (limits.maxPartitions * limits.maxPagesPerPartition) w w' ∧
    w'.store.completedThroughMillis = w.store.completedThroughMillis ∧
    ∀ receipt, result = .ok receipt → receipt.status ≠ .scannedToHighWater

theorem reconciled_error (limits : HistorySyncLimitsV1) (e : Interruption)
    (script : List (Option Interruption)) :
    Reconciled source limits w (.error e) { w with script } :=
  ⟨progress_script.mono (Nat.zero_le _), rfl, fun _ hresult => by cases hresult⟩

theorem Reconciled.of_script {script : List (Option Interruption)}
    {result : Except Interruption HistorySyncReceiptV1}
    (h : Reconciled source limits { w with script } result w') :
    Reconciled source limits w result w' :=
  ⟨(progress_script.trans h.1).mono (by omega), h.2⟩

variable [Sha256] [LogModel] [Rowids]

/-- The loop over the partitions, with what is known between them of the world
and of the bound that was reached. -/
theorem returns_partitionLoop {highWater : Int} {advance : Int → HistoryM σ Unit}
    {J : HistoryWorld σ → Int → Prop}
    (hpages : ∀ {w w' : HistoryWorld σ} {start stop : Int} {pages : List HistoryPageV1},
      J w start → Fetched source ⟨start, stop⟩ none w w' pages → J w' start)
    (hadvance : ∀ {w w' : HistoryWorld σ} {start stop : Int} {pages : List HistoryPageV1},
      J w start → Fetched source ⟨start, stop⟩ none w w' pages →
      Whole source ⟨start, stop⟩ none w w' pages →
        Returns (fun result w'' => Progress source 0 w' w'' ∧
          J w'' (match result with
            | .ok _ => stop
            | .error _ => start)) (advance stop) w')
    (remaining : Nat) (receipt : HistorySyncReceiptV1) (w : HistoryWorld σ)
    (hstart : J w receipt.completedThroughMillis) :
    Returns (fun result w' => Progress source (remaining * limits.maxPagesPerPartition) w w' ∧
        (∃ c, J w' c) ∧ ∀ receipt' done, result = .ok (receipt', done) →
          J w' receipt'.completedThroughMillis ∧
          (done = true → receipt'.status = .partialPageLimit))
      (partitionLoop source limits highWater advance remaining receipt) w := by
  induction remaining generalizing receipt w with
  | zero =>
      refine returns_pure ⟨progress_script.mono (Nat.zero_le _), ⟨_, hstart⟩, ?_⟩
      intro receipt' done hresult
      cases hresult
      exact ⟨hstart, fun h => by cases h⟩
  | succ remaining ih =>
      unfold partitionLoop
      split
      · refine returns_then (returns_pageLoop source limits _ _ none [] receipt w) ?_ ?_
        · rintro e w₁ ⟨pages, hfetched, hlength, _⟩
          refine ⟨hfetched.progress.mono ?_, ⟨_, hpages hstart hfetched⟩, ?_⟩
          · rw [Nat.succ_mul]
            omega
          · intro _ _ hresult
            cases hresult
        · rintro ⟨receipt₁, done⟩ w₁ ⟨pages, hfetched, hlength, hresult⟩
          obtain ⟨hcompleted, hstatus, hwhole⟩ := hresult receipt₁ done rfl
          have hprogress : Progress source limits.maxPagesPerPartition w w₁ :=
            hfetched.progress.mono hlength
          dsimp only
          split
          · rename_i hdone
            refine returns_pure ⟨hprogress.mono ?_, ⟨_, hpages hstart hfetched⟩, ?_⟩
            · rw [Nat.succ_mul]
              omega
            · intro receipt' done' hok
              cases hok
              rw [hcompleted]
              exact ⟨hpages hstart hfetched, fun _ => hstatus hdone⟩
          · rename_i hdone
            refine returns_then (hadvance hstart hfetched (hwhole (by simpa using hdone))) ?_ ?_
            · rintro e w₂ ⟨hmoved, hJ⟩
              refine ⟨(hprogress.trans hmoved).mono ?_, ⟨_, hJ⟩, ?_⟩
              · rw [Nat.succ_mul]
                omega
              · intro _ _ hresult
                cases hresult
            · rintro ⟨⟩ w₂ ⟨hmoved, hJ⟩
              obtain ⟨hrest, hJ', hresult'⟩ := ih { receipt₁ with
                completedThroughMillis := _
                completedPartitions := receipt₁.completedPartitions + 1 } w₂ hJ
              refine ⟨((hprogress.trans hmoved).trans hrest).mono ?_, hJ', hresult'⟩
              rw [Nat.succ_mul]
              omega
      · refine returns_pure ⟨progress_script.mono (Nat.zero_le _), ⟨_, hstart⟩, ?_⟩
        intro receipt' done hresult
        cases hresult
        exact ⟨hstart, fun h => by cases h⟩

theorem returns_scanHistory {start highWater : Int} {advance : Int → HistoryM σ Unit}
    {whole : HistorySyncStatusV1} {J : HistoryWorld σ → Int → Prop}
    (hloop : Returns (fun result w' =>
        Progress source (limits.maxPartitions * limits.maxPagesPerPartition) w w' ∧
        (∃ c, J w' c) ∧ ∀ receipt' done, result = .ok (receipt', done) →
          J w' receipt'.completedThroughMillis ∧
          (done = true → receipt'.status = .partialPageLimit))
      (partitionLoop source limits highWater advance limits.maxPartitions
        ⟨.backfilling, start, highWater, 0, 0, 0⟩) w) :
    Returns (fun result w' =>
        Progress source (limits.maxPartitions * limits.maxPagesPerPartition) w w' ∧
        (∃ c, J w' c) ∧ ∀ receipt, result = .ok receipt →
          receipt.status = .partialPageLimit ∨ receipt.status = .backfilling ∨
          (receipt.status = whole ∧ J w' highWater))
      (scanHistory source limits start highWater advance whole) w := by
  refine returns_then hloop ?_ ?_
  · rintro e w' ⟨hprogress, hJ, _⟩
    exact ⟨hprogress, hJ, fun _ hresult => by cases hresult⟩
  · rintro ⟨receipt, done⟩ w' ⟨hprogress, hJ, hresult⟩
    obtain ⟨hcompleted, hstatus⟩ := hresult receipt done rfl
    dsimp only
    split
    · rename_i hdone
      refine returns_pure ⟨hprogress, hJ, fun receipt' hok => ?_⟩
      cases hok
      exact .inl (hstatus hdone)
    · refine returns_pure ⟨hprogress, hJ, fun receipt' hok => ?_⟩
      cases hok
      dsimp only
      split
      · rename_i hreached
        rw [hreached] at hcompleted
        exact .inr (.inr ⟨rfl, hcompleted⟩)
      · exact .inr (.inl rfl)

theorem returns_synchronize (highWater : Int) (w : HistoryWorld σ) :
    Returns (Synchronized source limits highWater w)
      (synchronizeHistoryV1 source highWater limits) w := by
  refine returns_require (fun _ => synchronized_error limits highWater _ w.script) fun hvalid => ?_
  refine returns_first (returns_checkpoint (synchronized_error limits highWater) fun script => ?_)
  refine returns_require (fun _ => synchronized_error limits highWater _ script) fun _ => ?_
  refine returns_mono (returns_scanHistory
    (J := fun w c => w.store.completedThroughMillis.getD 0 = c)
    (returns_partitionLoop ?_ ?_ limits.maxPartitions
      ⟨.backfilling, _, highWater, 0, 0, 0⟩ { w with script } rfl)) ?_
  · intro w w' start stop pages hstart hfetched
    rw [hfetched.checkpoint]
    exact hstart
  · intro w w' start stop pages hstart hfetched hwhole
    refine returns_completePartition (fun e script => ⟨progress_script, ?_⟩)
      fun script hlater => ⟨hfetched.advance hwhole hstart hlater, rfl⟩
    dsimp only
    rw [hfetched.checkpoint]
    exact hstart
  · rintro result w' ⟨hprogress, _, hresult⟩
    refine ⟨(progress_script.trans hprogress).mono (by omega), fun receipt hok hscanned => ?_⟩
    rcases hresult receipt hok with hstatus | hstatus | ⟨_, hreached⟩
    · rw [hstatus] at hscanned
      cases hscanned
    · rw [hstatus] at hscanned
      cases hscanned
    · -- the mark is positive, so it is not the checkpoint that was never written
      cases hcheckpoint : w'.store.completedThroughMillis with
      | none =>
          rw [hcheckpoint] at hreached
          simp only [Option.getD_none, Bool.and_eq_true, decide_eq_true_eq] at hreached hvalid
          omega
      | some c =>
          rw [hcheckpoint] at hreached
          exact congrArg some hreached

theorem returns_reconcileRange (start highWater : Int) (w : HistoryWorld σ) :
    Returns (Reconciled source limits w)
      (reconcileHistoryRangeV1 source start highWater limits) w := by
  refine returns_require (fun _ => reconciled_error limits _ w.script) fun _ => ?_
  refine returns_first (returns_checkpoint (reconciled_error limits) fun script => ?_)
  refine returns_require (fun _ => reconciled_error limits _ script) fun _ => ?_
  refine returns_mono (returns_scanHistory
    (J := fun w' _ => w'.store.completedThroughMillis = w.store.completedThroughMillis)
    (returns_partitionLoop ?_ ?_ limits.maxPartitions
      ⟨.backfilling, start, highWater, 0, 0, 0⟩ { w with script } rfl)) ?_
  · intro w₁ w₂ start stop pages hsame hfetched
    exact hfetched.checkpoint.trans hsame
  · intro w₁ w₂ start stop pages hsame hfetched _
    exact returns_pure ⟨progress_script, hfetched.checkpoint.trans hsame⟩
  · rintro result w' ⟨hprogress, ⟨_, hsame⟩, hresult⟩
    refine Reconciled.of_script ⟨hprogress, hsame, fun receipt hok hscanned => ?_⟩
    rcases hresult receipt hok with hstatus | hstatus | ⟨hstatus, _⟩
    · rw [hstatus] at hscanned
      cases hscanned
    · rw [hstatus] at hscanned
      cases hscanned
    · rw [hstatus] at hscanned
      cases hscanned

theorem returns_reconcile (lookback : Int) (w : HistoryWorld σ) :
    Returns (Reconciled source limits w) (reconcileHistoryV1 source lookback limits) w := by
  refine returns_require (fun _ => reconciled_error limits _ w.script) fun _ => ?_
  refine returns_first (returns_checkpoint (reconciled_error limits) fun script => ?_)
  cases w.store.completedThroughMillis with
  | none => exact returns_fail (reconciled_error limits _ script)
  | some highWater =>
      refine returns_require (fun _ => reconciled_error limits _ script) fun _ => ?_
      exact returns_mono (returns_reconcileRange _ highWater { w with script })
        fun _ _ => Reconciled.of_script

end Runs

/-! ## Sessions -/

section Sessions

variable {σ : Type} {source : HistoryPageSourceV1 σ} {store : HistoryStore}
  [Sha256] [LogModel] [Rowids]

theorem HistorySessionV1.progress (session : HistorySessionV1 σ) :
    Progress source (session.run.limits.maxPartitions * session.run.limits.maxPagesPerPartition)
      ⟨store, session.source, session.script, []⟩ (session.result source store).2 := by
  obtain ⟨run, start, script⟩ := session
  cases run with
  | synchronize highWater limits => exact (returns_synchronize highWater _).1
  | reconcile lookback limits => exact (returns_reconcile lookback _).1
  | reconcileRange first highWater limits => exact (returns_reconcileRange first highWater _).1

theorem HistoryStore.behind_runSessions {dataset : List HistoryRecordV1}
    (hhonest : source.Honest dataset) (hstore : store.Behind dataset)
    (sessions : List (HistorySessionV1 σ)) :
    (HistoryStore.runSessions source store sessions).Behind dataset := by
  induction sessions generalizing store with
  | nil => exact hstore
  | cons session rest ih => exact ih (session.progress.behind dataset hhonest hstore)

/-- After any sessions with a provider, from an empty store: an honest one's
records are stored up to the checkpoint. Another session never takes the
checkpoint back, moves it only forward, reports that the mark was reached only
if the checkpoint is the mark, asks a bounded number of times, and stores
nothing outside the partition it asked for. -/
theorem checkpoint_behind_data (source : HistoryPageSourceV1 σ)
    (sessions : List (HistorySessionV1 σ)) :
    (∀ dataset, source.Honest dataset →
      (HistoryStore.runSessions source {} sessions).Behind dataset) ∧
    ∀ (session : HistorySessionV1 σ) (store : HistoryStore),
      store = HistoryStore.runSessions source {} sessions →
        (∀ completedThrough, store.completedThroughMillis = some completedThrough →
          ∃ later, (session.result source store).2.store.completedThroughMillis = some later ∧
            completedThrough ≤ later) ∧
        ((∀ highWater limits, session.run ≠ .synchronize highWater limits) →
          (session.result source store).2.store.completedThroughMillis =
            store.completedThroughMillis) ∧
        (∀ receipt, (session.result source store).1 = .ok receipt →
          receipt.status = .scannedToHighWater →
            ∃ highWater limits, session.run = .synchronize highWater limits ∧
              (session.result source store).2.store.completedThroughMillis = some highWater) ∧
        (session.result source store).2.answers.length ≤
          session.run.limits.maxPartitions * session.run.limits.maxPagesPerPartition ∧
        ∀ record ∈ (session.result source store).2.store.tables.historyRecords,
          record ∈ store.tables.historyRecords ∨
            ∃ answer ∈ (session.result source store).2.answers,
              record ∈ answer.2.records ∧ answer.1.contains record = true := by
  refine ⟨fun dataset hhonest => ?_, fun session store _ => ?_⟩
  · refine HistoryStore.behind_runSessions hhonest ⟨fun c hc => ?_, ?_, ?_⟩ sessions
    · cases hc
    · intro record hrecord
      cases hrecord
    · exact List.nodup_nil
  · have hprogress : Progress source
        (session.run.limits.maxPartitions * session.run.limits.maxPagesPerPartition)
        ⟨store, session.source, session.script, []⟩ (session.result source store).2 :=
      session.progress
    have hanswers : (session.result source store).2.answers.length ≤
        session.run.limits.maxPartitions * session.run.limits.maxPagesPerPartition := by
      obtain ⟨new, hnew, hlength⟩ := hprogress.answers
      rw [hnew]
      exact hlength
    refine ⟨hprogress.advances, ?_, ?_, hanswers, hprogress.confined⟩
    · intro hreplay
      obtain ⟨run, start, script⟩ := session
      cases run with
      | synchronize highWater limits => exact absurd rfl (hreplay highWater limits)
      | reconcile lookback limits => exact (returns_reconcile lookback _).2.1
      | reconcileRange first highWater limits =>
          exact (returns_reconcileRange first highWater _).2.1
    · intro receipt hok hscanned
      obtain ⟨run, start, script⟩ := session
      cases run with
      | synchronize highWater limits =>
          exact ⟨highWater, limits, rfl, (returns_synchronize highWater _).2 receipt hok hscanned⟩
      | reconcile lookback limits =>
          exact absurd hscanned ((returns_reconcile lookback _).2.2 receipt hok)
      | reconcileRange first highWater limits =>
          exact absurd hscanned ((returns_reconcileRange first highWater _).2.2 receipt hok)

end Sessions

/-- A provider with one record on a page. Its token is as long as the number of
records it has given. -/
def onePerPage (dataset : List HistoryRecordV1) : HistoryPageSourceV1 Unit where
  fetchPage _ partition nextToken :=
    let given := (nextToken.map List.length).getD 0
    let records := (dataset.filter partition.contains).drop given
    (.ok ⟨records.take 1, if 1 < records.length then some (.replicate (given + 1) 1) else none⟩,
      ())

/-- A chain gives records of the partition, and all that were left if it comes to its end. -/
theorem onePerPage_chain {dataset : List HistoryRecordV1} {partition : HistoryPartitionV1}
    {s s' : Unit} {token last : Option (List UInt8)} {pages : List HistoryPageV1}
    (h : (onePerPage dataset).Chain partition s token pages s' last) :
    (∀ page ∈ pages, ∀ record ∈ page.records, record ∈ dataset.filter partition.contains) ∧
      (last = none → ∀ record ∈ (dataset.filter partition.contains).drop
        ((token.map List.length).getD 0), ∃ page ∈ pages, record ∈ page.records) := by
  induction h with
  | @one _ _ token page h =>
      cases h
      refine ⟨fun page hpage record hrecord => ?_, fun hnone record hrecord => ?_⟩
      · rw [List.mem_singleton.mp hpage] at hrecord
        exact List.mem_of_mem_drop (List.mem_of_mem_take hrecord)
      · refine ⟨_, List.mem_singleton_self _, ?_⟩
        have hshort : ¬ 1 < ((dataset.filter partition.contains).drop
            ((token.map List.length).getD 0)).length := by
          intro hlong
          rw [if_pos hlong] at hnone
          cases hnone
        rwa [List.take_of_length_le (Nat.not_lt.mp hshort)]
  | @more _ _ _ token _ next page _ h hnext _ ih =>
      cases h
      obtain ⟨honly, hall⟩ := ih
      refine ⟨List.forall_mem_cons.mpr ⟨fun record hrecord =>
        List.mem_of_mem_drop (List.mem_of_mem_take hrecord), honly⟩, fun hnone record hrecord => ?_⟩
      have hgiven : next.length = (token.map List.length).getD 0 + 1 := by
        dsimp only at hnext
        split at hnext
        · cases hnext
          exact List.length_replicate
        · cases hnext
      rw [← List.take_append_drop 1 (List.drop _ _)] at hrecord
      rcases List.mem_append.mp hrecord with hfirst | hlater
      · exact ⟨_, List.mem_cons_self, hfirst⟩
      · rw [List.drop_drop, ← hgiven] at hlater
        obtain ⟨page, hpage, hin⟩ := hall hnone record hlater
        exact ⟨page, List.mem_cons_of_mem _ hpage, hin⟩

theorem honest_onePerPage (dataset : List HistoryRecordV1) :
    (onePerPage dataset).Honest dataset where
  only h page hpage record hrecord :=
    List.mem_filter.mp ((onePerPage_chain h).1 page hpage record hrecord)
  all h record hrecord hcontains :=
    (onePerPage_chain h).2 rfl record (List.mem_filter.mpr ⟨hrecord, hcontains⟩)

def smallLimits : HistorySyncLimitsV1 := ⟨4, 4, 4, 4, 100⟩

/-- Two of the records are in the first partition, one is behind the mark. -/
def fiveRecords : List HistoryRecordV1 :=
  [⟨[1], 1, [120]⟩, ⟨[2], 3, [121]⟩, ⟨[3], 6, [122]⟩, ⟨[4], 9, [123]⟩, ⟨[5], 20, [124]⟩]

/-- The provider cannot be reached when the second partition is fetched. -/
def interruptedSession : HistorySessionV1 Unit :=
  ⟨.synchronize 10 smallLimits, (), .replicate 6 none ++ [some (.failed .network)]⟩

def secondSession : HistorySessionV1 Unit := ⟨.synchronize 10 smallLimits, (), []⟩

def lookbackSession : HistorySessionV1 Unit := ⟨.reconcile 8 smallLimits, (), []⟩

/-- The first session ends behind the first partition, the second one reaches the
mark, and the third one looks back. -/
theorem checkpoint_behind_data_interrupted :
    letI := fips180
    letI := plainLog
    letI := noRetry
    let source := onePerPage fiveRecords
    let before := HistoryStore.runSessions source {} [interruptedSession]
    let after := HistoryStore.runSessions source {} [interruptedSession, secondSession]
    before.completedThroughMillis = some 4 ∧ before.Behind fiveRecords ∧
      after.completedThroughMillis = some 10 ∧ after.Behind fiveRecords ∧
      (secondSession.result source before).2.answers.length ≤ 4 * 4 ∧
      (lookbackSession.result source after).2.store.completedThroughMillis = some 10 ∧
      ∀ record ∈ (lookbackSession.result source after).2.store.tables.historyRecords,
        record ∈ after.tables.historyRecords ∨
          ∃ answer ∈ (lookbackSession.result source after).2.answers,
            record ∈ answer.2.records ∧ answer.1.contains record = true := by
  rw [fips180_eq]
  have hsessions := @checkpoint_behind_data _ fips180Evaluated plainLog noRetry
    (onePerPage fiveRecords)
  obtain ⟨hbehind, hsecond⟩ := hsessions [interruptedSession]
  obtain ⟨hbehind', hthird⟩ := hsessions [interruptedSession, secondSession]
  obtain ⟨-, -, -, hbound, -⟩ := hsecond secondSession _ rfl
  obtain ⟨-, hkept, -, -, hconfined⟩ := hthird lookbackSession _ rfl
  have hreplay : ∀ highWater limits,
      lookbackSession.run ≠ .synchronize highWater limits := fun _ _ h => by cases h
  have hmark : (@HistoryStore.runSessions _ fips180Evaluated plainLog noRetry
      (onePerPage fiveRecords) {} [interruptedSession, secondSession]).completedThroughMillis =
        some 10 := by
    decide +kernel
  exact ⟨by decide +kernel, hbehind _ (honest_onePerPage _), hmark,
    hbehind' _ (honest_onePerPage _), hbound, (hkept hreplay).trans hmark, hconfined⟩

/-- Partitions start at 0, so an honest provider is never asked for a record
from before. -/
theorem negative_record_left_out :
    letI := fips180
    letI := plainLog
    letI := noRetry
    let record : HistoryRecordV1 := ⟨[1], -1, [120]⟩
    let store := HistoryStore.runSessions (onePerPage [record]) {} [secondSession]
    (onePerPage [record]).Honest [record] ∧ store.completedThroughMillis = some 10 ∧
      record.eventTimestampMillis ≤ 10 ∧ record ∉ store.tables.historyRecords := by
  let := fips180
  let := plainLog
  let := noRetry
  exact ⟨honest_onePerPage _, by decide +kernel, by decide, by decide +kernel⟩

end Evidentrail
