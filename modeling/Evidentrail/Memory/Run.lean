import Evidentrail.Memory.Store

/-!
# Runs of the memory store

Whatever is called in whatever order: aliases are references of their own
result, a reference lives as long as its result, and a manifest that was
published stays. A reference speaks of the ledger of its result, unless it was
prepared against a result that has been replaced since, by one of the same
age, and committed to that one.
-/

namespace Evidentrail

open Rust Std

/-! ## References of one result -/

/-- The target is an event of the ledger. -/
def EventLedger.Holds (ledger : EventLedger) (target : EvidenceTargetRef) : Prop :=
  ∃ event ∈ ledger.events, target = .event event.id

theorem EventLedger.Indexed.holds {ledger : EventLedger} (h : ledger.Indexed) {id : EventId}
    (hid : ledger.contains id = true) : ledger.Holds (.event id) := by
  have hmem : id ∈ ledger.positions := ExtTreeMap.contains_iff_mem.mp hid
  obtain ⟨position, hposition⟩ := Option.isSome_iff_exists.mp
    (ExtTreeMap.mem_iff_isSome_getElem?.mp hmem)
  rw [h.positions, List.getElem?_map] at hposition
  obtain ⟨event, hevent, rfl⟩ := Option.map_eq_some_iff.mp hposition
  exact ⟨event, List.mem_of_getElem? hevent, rfl⟩

namespace MemoryResult

/-- What holds of a stored result at every moment. -/
structure Regular (result : MemoryResult) : Prop where
  indexed : result.ledger.Indexed
  expires : ∀ (id : EvidenceReferenceId) (reference : EvidenceReferenceV1),
    result.references[id]? = some reference → reference.expiresAt = result.expiresAt
  aliases : ∀ manifest, result.evidenceAliasManifest = some manifest →
    ∀ id ∈ manifest, id ∈ result.references
  waiting : ∀ id ∈ result.pendingEventAliasManifest, id ∈ result.references

/-- Every reference targets events of the ledger. -/
def Inside (result : MemoryResult) : Prop :=
  ∀ (id : EvidenceReferenceId) (reference : EvidenceReferenceV1),
    result.references[id]? = some reference →
      ∀ target ∈ reference.targets, result.ledger.Holds target

/-- What `commit_packet_references` asks of the result that is stored. -/
def accepts (result : MemoryResult) (prepared : PreparedPacketReferencesV1)
    (now : UnixTimestampNanos) : Bool :=
  decide (result.createdAt = prepared.resultCreatedAt) &&
    decide (result.expiresAt = prepared.expiresAt) && result.isLive now &&
    result.evidenceAliasManifest.isNone &&
    prepared.references.all fun reference => !result.references.contains reference.id

def withPackets (result : MemoryResult) (prepared : PreparedPacketReferencesV1)
    (registered : ExtTreeMap EvidenceReferenceId EvidenceReferenceV1) : MemoryResult :=
  { result with
    evidenceAliasManifest := some (prepared.references.map EvidenceReferenceV1.id)
    pendingEventAliasManifest := []
    references := registered.toList.foldl (fun merged pair => merged.insert pair.1 pair.2)
      result.references }

end MemoryResult

/-! ## Maps of references -/

section Maps

variable {references : List EvidenceReferenceV1}
  {registered m : ExtTreeMap EvidenceReferenceId EvidenceReferenceV1}
  {id : EvidenceReferenceId} {reference : EvidenceReferenceV1}

/-- The map holds every reference under its id. -/
theorem referenceMap_ok (h : referenceMap references = .ok registered) :
    registered[id]? = some reference ↔ reference ∈ references ∧ reference.id = id := by
  have hgeneral : ∀ (references : List EvidenceReferenceV1)
      (m registered : ExtTreeMap EvidenceReferenceId EvidenceReferenceV1),
      references.foldlM registerOnce m = .ok registered →
      (registered[id]? = some reference ↔
        m[id]? = some reference ∨ (reference ∈ references ∧ reference.id = id)) := by
    intro references
    induction references with
    | nil =>
        intro m registered h
        cases h
        simp
    | cons first rest ih =>
        intro m registered h
        rw [List.foldlM_cons] at h
        obtain ⟨next, hnext, h⟩ := except_bind_eq_ok.mp h
        unfold registerOnce at hnext
        split at hnext
        · cases hnext
        · rename_i hfresh
          cases hnext
          rw [ih _ _ h, getElem?_insert]
          constructor
          · rintro (hfound | ⟨hmem, hid⟩)
            · split at hfound
              · rename_i hid
                cases hfound
                exact .inr ⟨List.mem_cons_self .., hid⟩
              · exact .inl hfound
            · exact .inr ⟨List.mem_cons_of_mem _ hmem, hid⟩
          · rintro (hfound | ⟨hmem, hid⟩)
            · refine .inl ?_
              rw [if_neg]
              · exact hfound
              · intro hid
                refine hfresh (ExtTreeMap.mem_iff_isSome_getElem?.mpr ?_)
                rw [hid, hfound]
                rfl
            · rcases List.mem_cons.mp hmem with rfl | hmem
              · exact .inl (if_pos hid)
              · exact .inr ⟨hmem, hid⟩
  rw [hgeneral references ∅ registered h]
  simp

theorem keys_any (h : referenceMap references = .ok registered) (p : EvidenceReferenceId → Bool) :
    registered.keys.any p = references.any fun reference => p reference.id := by
  rw [Bool.eq_iff_iff, List.any_eq_true, List.any_eq_true]
  constructor
  · rintro ⟨key, hkey, hp⟩
    obtain ⟨reference, hreference⟩ := Option.isSome_iff_exists.mp
      (ExtTreeMap.mem_iff_isSome_getElem?.mp (ExtTreeMap.mem_keys.mp hkey))
    obtain ⟨hmem, rfl⟩ := (referenceMap_ok h).mp hreference
    exact ⟨reference, hmem, hp⟩
  · rintro ⟨reference, hmem, hp⟩
    have hfound := (referenceMap_ok h).mpr ⟨hmem, rfl⟩
    refine ⟨reference.id, ExtTreeMap.mem_keys.mpr ?_, hp⟩
    exact ExtTreeMap.mem_iff_isSome_getElem?.mpr (by rw [hfound]; rfl)

theorem merged_some {pairs : List (EvidenceReferenceId × EvidenceReferenceV1)}
    (h : (pairs.foldl (fun merged pair => merged.insert pair.1 pair.2) m)[id]? =
      some reference) : m[id]? = some reference ∨ (id, reference) ∈ pairs := by
  induction pairs generalizing m with
  | nil => exact .inl h
  | cons pair rest ih =>
      rcases ih h with hfound | hmem
      · rw [getElem?_insert] at hfound
        split at hfound
        · rename_i hid
          cases hfound
          refine .inr (List.mem_cons.mpr (.inl ?_))
          rw [← hid]
        · exact .inl hfound
      · exact .inr (List.mem_cons_of_mem _ hmem)

theorem mem_merged {pairs : List (EvidenceReferenceId × EvidenceReferenceV1)}
    (h : id ∈ m ∨ ∃ reference, (id, reference) ∈ pairs) :
    id ∈ pairs.foldl (fun merged pair => merged.insert pair.1 pair.2) m := by
  induction pairs generalizing m with
  | nil =>
      rcases h with h | ⟨_, h⟩
      · exact h
      · cases h
  | cons pair rest ih =>
      refine ih ?_
      rw [mem_insert]
      rcases h with h | ⟨reference, h⟩
      · exact .inl (.inr h)
      · rcases List.mem_cons.mp h with rfl | h
        · exact .inl (.inl rfl)
        · exact .inr ⟨reference, h⟩

end Maps

/-! ## What is issued -/

theorem validateMaterial_targets {targets targets' : List EvidenceTargetRef}
    {relations relations' : List ExpansionRelationV1} {issuedAt expiresAt : UnixTimestampNanos}
    (h : EvidenceReferenceV1.validateMaterial targets relations issuedAt expiresAt =
      .ok (targets', relations')) : targets' = targets := by
  unfold EvidenceReferenceV1.validateMaterial at h
  split at h
  · cases h
  · split at h
    · cases h
    · split at h
      · cases h
      · split at h
        · cases h
        · dsimp only at h
          split at h
          · cases h
          · split at h
            · cases h
            · split at h
              · cases h
              · cases h
                rfl

theorem mapM_mem {α β ε : Type} {f : α → Except ε β} : ∀ {l : List α} {l' : List β},
    l.mapM f = .ok l' → ∀ b ∈ l', ∃ a ∈ l, f a = .ok b
  | [], l', h, b, hb => by
      cases h
      cases hb
  | first :: rest, l', h, b, hb => by
      rw [List.mapM_cons] at h
      obtain ⟨head, hhead, h⟩ := except_bind_eq_ok.mp h
      obtain ⟨tail, htail, h⟩ := except_bind_eq_ok.mp h
      cases h
      rcases List.mem_cons.mp hb with rfl | hb
      · exact ⟨first, List.mem_cons_self .., hhead⟩
      · obtain ⟨a, ha, hfa⟩ := mapM_mem htail b hb
        exact ⟨a, List.mem_cons_of_mem _ ha, hfa⟩

section Issued

variable [Sha256] {resultId : ResultId} {ledger : EventLedger}
  {issuedAt expiresAt : UnixTimestampNanos} {reference : EvidenceReferenceV1}

theorem issueFor_ok {targets : List EvidenceTargetRef} {relations : List ExpansionRelationV1}
    (h : issueFor resultId targets relations issuedAt expiresAt = .ok reference) :
    reference.targets = targets ∧ reference.expiresAt = expiresAt := by
  replace h := mapError_eq_ok.mp h
  unfold EvidenceReferenceV1.issue at h
  split at h
  · cases h
  · rename_i found allowed hvalid
    cases h
    exact ⟨validateMaterial_targets hvalid, rfl⟩

theorem buildPackets_ok {assigned : ExtTreeSet EventId} {packets : List (List EventId)}
    {references : List EvidenceReferenceV1}
    (h : buildPackets ledger resultId issuedAt expiresAt assigned packets = .ok references) :
    ∀ reference ∈ references, reference.expiresAt = expiresAt := by
  induction packets generalizing assigned references with
  | nil =>
      cases h
      simp
  | cons packet rest ih =>
      unfold buildPackets at h
      dsimp only at h
      split at h
      · cases h
      · split at h
        · cases h
        · split at h
          · cases h
          · obtain ⟨first, hfirst, h⟩ := except_bind_eq_ok.mp h
            obtain ⟨others, hothers, h⟩ := except_bind_eq_ok.mp h
            cases h
            intro reference hreference
            rcases List.mem_cons.mp hreference with rfl | hreference
            · exact (issueFor_ok hfirst).2
            · exact ih hothers reference hreference

end Issued

/-! ## What is committed -/

section Commit

variable {store : MemoryResultStore} {prepared : PreparedPacketReferencesV1}
  {registered : ExtTreeMap EvidenceReferenceId EvidenceReferenceV1} {result : MemoryResult}
  {now : UnixTimestampNanos}

/-- What a result accepts is committed to it. -/
theorem commit_accepted (hmap : referenceMap prepared.references = .ok registered)
    (hresult : store.results[prepared.resultId]? = some result)
    (haccepts : result.accepts prepared now = true) :
    store.commitPacketReferences prepared now = .ok (store.setResult prepared.resultId
      (result.withPackets prepared registered), prepared.expiresAt) := by
  simp only [MemoryResult.accepts, Bool.and_eq_true, decide_eq_true_eq, Option.isNone_iff_eq_none,
    List.all_eq_true, Bool.not_eq_true'] at haccepts
  obtain ⟨⟨⟨⟨hcreated, hexpires⟩, hlive⟩, hnone⟩, hfresh⟩ := haccepts
  unfold MemoryResultStore.commitPacketReferences
  rw [hmap, hresult, okOr_some, except_bind_ok, except_bind_ok, keys_any hmap,
    if_neg (by simp [hcreated, hexpires, hlive]), if_neg (by simp [hnone]), if_neg]
  · rfl
  · simp only [List.any_eq_true, not_exists, not_and]
    intro reference hreference
    rw [hfresh reference hreference]
    decide

/-- Nothing else is committed. -/
theorem commit_refused (hmap : referenceMap prepared.references = .ok registered)
    (hresult : store.results[prepared.resultId]? = some result)
    (hrefuses : ¬ result.accepts prepared now = true) :
    ∃ e, store.commitPacketReferences prepared now = .error e := by
  unfold MemoryResultStore.commitPacketReferences
  rw [hmap, hresult, okOr_some, except_bind_ok, except_bind_ok, keys_any hmap]
  split
  · exact ⟨_, rfl⟩
  · rename_i hsame
    split
    · exact ⟨_, rfl⟩
    · rename_i hnone
      split
      · exact ⟨_, rfl⟩
      · rename_i hfresh
        refine absurd ?_ hrefuses
        simp only [ne_eq, not_or, not_not, Bool.not_eq_true, Bool.not_eq_false'] at hsame
        simp only [Bool.not_eq_true, Option.isSome_eq_false_iff] at hnone
        simp only [List.any_eq_true, not_exists, not_and, Bool.not_eq_true] at hfresh
        simp only [MemoryResult.accepts, hsame, hnone, decide_true, Bool.and_true, Bool.true_and,
          List.all_eq_true, Bool.not_eq_true']
        exact hfresh

end Commit

/-! ## Runs -/

/-- The store, and the values that were prepared so far. -/
structure MemoryRunV1 where
  store : MemoryResultStore := {}
  prepared : List PreparedPacketReferencesV1 := []

/-- A call with its arguments. Ledgers are sealed ones, and what is committed
is one of the values prepared before. -/
inductive MemoryCallV1 [Sha256] where
  | insert (resultId : ResultId) (ledger : { ledger : EventLedger // ledger.Obtained })
      (createdAt : UnixTimestampNanos)
  | insertWithEventReferences (resultId : ResultId)
      (ledger : { ledger : EventLedger // ledger.Obtained }) (createdAt : UnixTimestampNanos)
  | publishEventAliases (resultId : ResultId) (now : UnixTimestampNanos)
  | preparePacketReferences (resultId : ResultId) (packets : List (List EventId))
      (now : UnixTimestampNanos)
  | commitPacketReferences (index : Nat) (now : UnixTimestampNanos)
  | issueEventReference (resultId : ResultId) (eventIds : List EventId)
      (relations : List ExpansionRelationV1) (now : UnixTimestampNanos)
  | delete (resultId : ResultId)
  | cleanupExpired (now : UnixTimestampNanos)

theorem MemoryResult.regular_opened {ledger : EventLedger}
    {createdAt expiresAt : UnixTimestampNanos} (h : ledger.Indexed) :
    ({ ledger, createdAt, expiresAt, references := ∅, evidenceAliasManifest := none
       pendingEventAliasManifest := [] } : MemoryResult).Regular := by
  refine ⟨h, fun id reference hreference => ?_, fun manifest hmanifest => ?_, by simp⟩
  · simp at hreference
  · cases hmanifest

namespace MemoryRunV1

/-- A store after a call, or as it was if the call failed. -/
def settle {α : Type} (s : MemoryRunV1)
    (result : Except ResultStoreError (MemoryResultStore × α)) : MemoryRunV1 :=
  match result with
  | .ok (store, _) => { s with store }
  | .error _ => s

/-- What was prepared can be registered, and lives as long as it says. -/
structure Ready (prepared : PreparedPacketReferencesV1) : Prop where
  distinct : ∃ registered, referenceMap prepared.references = .ok registered
  expires : ∀ reference ∈ prepared.references, reference.expiresAt = prepared.expiresAt

/-- What holds whatever is called. -/
structure Sound (s : MemoryRunV1) : Prop where
  ready : ∀ prepared ∈ s.prepared, Ready prepared
  regular : ∀ (id : ResultId) (result : MemoryResult), s.store.results[id]? = some result →
    result.Regular

theorem sound_empty : ({} : MemoryRunV1).Sound := by
  refine ⟨by simp, fun id result hresult => ?_⟩
  simp at hresult

theorem ready_settle {α : Type} {s : MemoryRunV1}
    {result : Except ResultStoreError (MemoryResultStore × α)}
    (h : ∀ prepared ∈ s.prepared, Ready prepared) :
    ∀ prepared ∈ (s.settle result).prepared, Ready prepared := by
  unfold settle
  split
  · exact h
  · exact h

variable [Sha256]

def step (s : MemoryRunV1) : MemoryCallV1 → MemoryRunV1
  | .insert resultId ledger createdAt => s.settle (s.store.insert resultId ledger.1 createdAt)
  | .insertWithEventReferences resultId ledger createdAt =>
      s.settle (s.store.insertWithEventReferences resultId ledger.1 createdAt)
  | .publishEventAliases resultId now =>
      s.settle ((s.store.publishEventAliases resultId now).map fun store => (store, ()))
  | .preparePacketReferences resultId packets now =>
      match s.store.preparePacketReferences resultId packets now with
      | .ok prepared => { s with prepared := s.prepared ++ [prepared] }
      | .error _ => s
  | .commitPacketReferences index now =>
      match s.prepared[index]? with
      | some prepared => s.settle (s.store.commitPacketReferences prepared now)
      | none => s
  | .issueEventReference resultId eventIds relations now =>
      s.settle (s.store.issueEventReference resultId eventIds relations now)
  | .delete resultId => { s with store := s.store.delete resultId }
  | .cleanupExpired now => { s with store := s.store.cleanupExpired now }

def runCalls (s : MemoryRunV1) (calls : List MemoryCallV1) : MemoryRunV1 := calls.foldl step s

/-! ## What one call does to one result -/

/-- What a call can do to the result of one id. -/
inductive Effect (s : MemoryRunV1) (call : MemoryCallV1) (id : ResultId) :
    Option MemoryResult → Option MemoryResult → Prop
  | same (x : Option MemoryResult) : Effect s call id x x
  | opened {result : MemoryResult} (hregular : result.Regular) (hinside : result.Inside) :
      Effect s call id none (some result)
  | published {result : MemoryResult} (hnone : result.evidenceAliasManifest = none) :
      Effect s call id (some result) (some { result with
        evidenceAliasManifest := some result.pendingEventAliasManifest
        pendingEventAliasManifest := [] })
  | issued {result : MemoryResult} {reference : EvidenceReferenceV1}
      (hexpires : reference.expiresAt = result.expiresAt)
      (htargets : result.ledger.Indexed → ∀ target ∈ reference.targets,
        result.ledger.Holds target) :
      Effect s call id (some result) (some { result with
        references := result.references.insert reference.id reference })
  | committed {result : MemoryResult} {index : Nat} {prepared : PreparedPacketReferencesV1}
      {registered : ExtTreeMap EvidenceReferenceId EvidenceReferenceV1}
      {now : UnixTimestampNanos} (hcall : call = .commitPacketReferences index now)
      (hprepared : s.prepared[index]? = some prepared) (hid : prepared.resultId = id)
      (hmap : referenceMap prepared.references = .ok registered)
      (haccepts : result.accepts prepared now = true) :
      Effect s call id (some result) (some (result.withPackets prepared registered))
  | gone {result : MemoryResult} (hcall : call = .delete id ∨
        ∃ now, call = .cleanupExpired now ∧ result.expiresAt.get ≤ now.get) :
      Effect s call id (some result) none

variable {s : MemoryRunV1} {call : MemoryCallV1} {id : ResultId}

/-- A new result in the place of none. -/
theorem effect_setResult {r : ResultId} {result : MemoryResult}
    (h : Effect s call r s.store.results[r]? (some result)) :
    Effect s call id s.store.results[id]? (s.store.setResult r result).results[id]? := by
  rw [MemoryResultStore.setResult, getElem?_insert]
  split
  · rename_i hr
    rw [← hr]
    exact h
  · exact .same _

theorem effect_insert {r : ResultId} {ledger : { ledger : EventLedger // ledger.Obtained }}
    {createdAt : UnixTimestampNanos} :
    Effect s call id s.store.results[id]?
      (s.settle (s.store.insert r ledger.1 createdAt)).store.results[id]? := by
  unfold MemoryResultStore.insert
  split
  · exact .same _
  · rename_i hnone
    cases fixedExpiry createdAt with
    | error e => exact .same _
    | ok expiresAt =>
        refine effect_setResult ?_
        rw [ExtTreeMap.getElem?_eq_none hnone]
        refine .opened (MemoryResult.regular_opened ledger.2.indexed)
          fun id reference hreference => ?_
        simp at hreference

theorem effect_insertWith {r : ResultId} {ledger : { ledger : EventLedger // ledger.Obtained }}
    {createdAt : UnixTimestampNanos} :
    Effect s call id s.store.results[id]? (s.settle
      (s.store.insertWithEventReferences r ledger.1 createdAt)).store.results[id]? := by
  cases hresult : s.store.insertWithEventReferences r ledger.1 createdAt with
  | error e => exact .same _
  | ok p =>
      unfold MemoryResultStore.insertWithEventReferences at hresult
      split at hresult
      · cases hresult
      · rename_i hnone
        obtain ⟨expiresAt, _, hresult⟩ := except_bind_eq_ok.mp hresult
        obtain ⟨references, hreferences, hresult⟩ := except_bind_eq_ok.mp hresult
        obtain ⟨registered, hmap, hresult⟩ := except_bind_eq_ok.mp hresult
        cases hresult
        refine effect_setResult ?_
        rw [ExtTreeMap.getElem?_eq_none hnone]
        refine .opened ⟨ledger.2.indexed, fun key reference hreference => ?_,
          fun manifest hmanifest => (by cases hmanifest), fun key hkey => ?_⟩
          fun key reference hreference target htarget => ?_
        · obtain ⟨hmem, _⟩ := (referenceMap_ok hmap).mp hreference
          obtain ⟨event, _, hissue⟩ := mapM_mem hreferences reference hmem
          exact (issueFor_ok hissue).2
        · obtain ⟨reference, hmem, rfl⟩ := List.mem_map.mp hkey
          have hfound := (referenceMap_ok hmap).mpr ⟨hmem, rfl⟩
          exact ExtTreeMap.mem_iff_isSome_getElem?.mpr (by rw [hfound]; rfl)
        · obtain ⟨hmem, _⟩ := (referenceMap_ok hmap).mp hreference
          obtain ⟨event, hevent, hissue⟩ := mapM_mem hreferences reference hmem
          rw [(issueFor_ok hissue).1, List.mem_singleton] at htarget
          exact ⟨event, hevent, htarget⟩

theorem effect_publish {r : ResultId} {now : UnixTimestampNanos} :
    Effect s call id s.store.results[id]? (s.settle
      ((s.store.publishEventAliases r now).map fun store => (store, ()))).store.results[id]? := by
  unfold MemoryResultStore.publishEventAliases
  cases hresult : s.store.results[r]? with
  | none => exact .same _
  | some result =>
      rw [okOr_some, except_bind_ok]
      split
      · exact .same _
      · split
        · exact .same _
        · rename_i hnone
          refine effect_setResult ?_
          rw [hresult]
          exact .published (by simpa using hnone)

theorem effect_issue {r : ResultId} {eventIds : List EventId}
    {relations : List ExpansionRelationV1} {now : UnixTimestampNanos} :
    Effect s call id s.store.results[id]? (s.settle
      (s.store.issueEventReference r eventIds relations now)).store.results[id]? := by
  unfold MemoryResultStore.issueEventReference
  cases hresult : s.store.results[r]? with
  | none => exact .same _
  | some result =>
      rw [okOr_some, except_bind_ok]
      split
      · exact .same _
      · split
        · exact .same _
        · rename_i hevents
          split
          · exact .same _
          · cases hissue : issueFor r (eventIds.map .event) relations now result.expiresAt with
            | error e => exact .same _
            | ok reference =>
                rw [except_bind_ok]
                split
                · exact .same _
                · refine effect_setResult ?_
                  rw [hresult]
                  obtain ⟨htargets, hexpires⟩ := issueFor_ok hissue
                  refine .issued hexpires fun hindexed target htarget => ?_
                  rw [htargets] at htarget
                  obtain ⟨event, hevent, rfl⟩ := List.mem_map.mp htarget
                  refine hindexed.holds ?_
                  simp only [Bool.or_eq_true, List.any_eq_true, not_or, not_exists, not_and,
                    Bool.not_eq_true, Bool.not_eq_false'] at hevents
                  exact hevents.2 event hevent

theorem effect_commit {index : Nat} {now : UnixTimestampNanos}
    {prepared : PreparedPacketReferencesV1} (hcall : call = .commitPacketReferences index now)
    (hprepared : s.prepared[index]? = some prepared) :
    Effect s call id s.store.results[id]?
      (s.settle (s.store.commitPacketReferences prepared now)).store.results[id]? := by
  cases hmap : referenceMap prepared.references with
  | error e =>
      unfold MemoryResultStore.commitPacketReferences
      rw [hmap]
      exact .same _
  | ok registered =>
      cases hresult : s.store.results[prepared.resultId]? with
      | none =>
          unfold MemoryResultStore.commitPacketReferences
          rw [hmap, hresult]
          exact .same _
      | some result =>
          by_cases haccepts : result.accepts prepared now = true
          · rw [commit_accepted hmap hresult haccepts]
            refine effect_setResult ?_
            rw [hresult]
            exact .committed hcall hprepared rfl hmap haccepts
          · obtain ⟨e, hcommit⟩ := commit_refused hmap hresult haccepts
            rw [hcommit]
            exact .same _

theorem effect_delete {r : ResultId} (hcall : call = .delete r) :
    Effect s call id s.store.results[id]? (s.store.delete r).results[id]? := by
  rw [MemoryResultStore.delete, getElem?_erase]
  split
  · rename_i hr
    cases hresult : s.store.results[id]? with
    | none => exact .same _
    | some result => exact .gone (.inl (by rw [hcall, hr]))
  · exact .same _

theorem effect_cleanup {now : UnixTimestampNanos} (hcall : call = .cleanupExpired now) :
    Effect s call id s.store.results[id]? (s.store.cleanupExpired now).results[id]? := by
  rw [MemoryResultStore.cleanupExpired, ExtTreeMap.getElem?_filter']
  cases hresult : s.store.results[id]? with
  | none => exact .same _
  | some result =>
      by_cases hlive : now.get < result.expiresAt.get
      · rw [Option.filter_some_pos (by simpa using hlive)]
        exact .same _
      · rw [Option.filter_some_neg (by simpa using hlive)]
        exact .gone (.inr ⟨now, hcall, by omega⟩)

/-- Every call has one of these effects on every result. -/
theorem effect_step : Effect s call id s.store.results[id]? (s.step call).store.results[id]? := by
  cases call with
  | insert r ledger createdAt => exact effect_insert
  | insertWithEventReferences r ledger createdAt => exact effect_insertWith
  | publishEventAliases r now => exact effect_publish
  | preparePacketReferences r packets now =>
      simp only [step]
      split
      · exact .same _
      · exact .same _
  | commitPacketReferences index now =>
      simp only [step]
      split
      · rename_i prepared hprepared
        exact effect_commit rfl hprepared
      · exact .same _
  | issueEventReference r eventIds relations now => exact effect_issue
  | delete r => exact effect_delete rfl
  | cleanupExpired now => exact effect_cleanup rfl

/-! ## What every state keeps -/

theorem ready_of_prepare {store : MemoryResultStore} {r : ResultId}
    {packets : List (List EventId)} {now : UnixTimestampNanos}
    {prepared : PreparedPacketReferencesV1}
    (h : store.preparePacketReferences r packets now = .ok prepared) : Ready prepared := by
  obtain ⟨result, _, h⟩ := except_bind_eq_ok.mp h
  split at h
  · cases h
  · obtain ⟨references, hbuild, h⟩ := except_bind_eq_ok.mp h
    cases h
    unfold buildPacketReferences at hbuild
    split at hbuild
    · cases hbuild
    · obtain ⟨built, hpackets, hbuild⟩ := except_bind_eq_ok.mp hbuild
      obtain ⟨registered, hmap, hbuild⟩ := except_bind_eq_ok.mp hbuild
      cases hbuild
      exact ⟨⟨registered, hmap⟩, buildPackets_ok hpackets⟩

theorem ready_step (h : ∀ prepared ∈ s.prepared, Ready prepared) :
    ∀ prepared ∈ (s.step call).prepared, Ready prepared := by
  cases call with
  | insert r ledger createdAt => exact ready_settle h
  | insertWithEventReferences r ledger createdAt => exact ready_settle h
  | publishEventAliases r now => exact ready_settle h
  | preparePacketReferences r packets now =>
      simp only [step]
      split
      · rename_i prepared hprepare
        intro candidate hcandidate
        rcases List.mem_append.mp hcandidate with hmem | hmem
        · exact h candidate hmem
        · rw [List.mem_singleton.mp hmem]
          exact ready_of_prepare hprepare
      · exact h
  | commitPacketReferences index now =>
      simp only [step]
      split
      · exact ready_settle h
      · exact h
  | issueEventReference r eventIds relations now => exact ready_settle h
  | delete r => exact h
  | cleanupExpired now => exact h

end MemoryRunV1

namespace MemoryResult

variable {result : MemoryResult}

theorem Regular.publish (h : result.Regular) : ({ result with
    evidenceAliasManifest := some result.pendingEventAliasManifest
    pendingEventAliasManifest := [] } : MemoryResult).Regular := by
  refine ⟨h.indexed, h.expires, ?_, by simp⟩
  intro manifest hmanifest
  cases hmanifest
  exact h.waiting

theorem Regular.issue {reference : EvidenceReferenceV1} (h : result.Regular)
    (hexpires : reference.expiresAt = result.expiresAt) : ({ result with
      references := result.references.insert reference.id reference } : MemoryResult).Regular := by
  refine ⟨h.indexed, fun id found hfound => ?_, fun manifest hmanifest id hid => ?_,
    fun id hid => ?_⟩
  · rw [getElem?_insert] at hfound
    split at hfound
    · cases hfound
      exact hexpires
    · exact h.expires id found hfound
  · exact mem_insert.mpr (.inr (h.aliases manifest hmanifest id hid))
  · exact mem_insert.mpr (.inr (h.waiting id hid))

/-- A reference of a result with packets was one before, or is one of the
packets'. -/
theorem withPackets_reference {prepared : PreparedPacketReferencesV1}
    {registered : ExtTreeMap EvidenceReferenceId EvidenceReferenceV1}
    (hmap : referenceMap prepared.references = .ok registered) {id : EvidenceReferenceId}
    {reference : EvidenceReferenceV1}
    (h : (result.withPackets prepared registered).references[id]? = some reference) :
    result.references[id]? = some reference ∨ reference ∈ prepared.references := by
  rcases merged_some h with hfound | hmem
  · exact .inl hfound
  · exact .inr ((referenceMap_ok hmap).mp (ExtTreeMap.mem_toList_iff_getElem?_eq_some.mp hmem)).1

theorem mem_withPackets (result : MemoryResult) {prepared : PreparedPacketReferencesV1}
    {registered : ExtTreeMap EvidenceReferenceId EvidenceReferenceV1}
    (hmap : referenceMap prepared.references = .ok registered) {reference : EvidenceReferenceV1}
    (h : reference ∈ prepared.references) :
    reference.id ∈ (result.withPackets prepared registered).references := by
  refine mem_merged (.inr ⟨reference, ExtTreeMap.mem_toList_iff_getElem?_eq_some.mpr ?_⟩)
  exact (referenceMap_ok hmap).mpr ⟨h, rfl⟩

theorem Regular.commit {prepared : PreparedPacketReferencesV1}
    {registered : ExtTreeMap EvidenceReferenceId EvidenceReferenceV1} (h : result.Regular)
    (hmap : referenceMap prepared.references = .ok registered)
    (hready : MemoryRunV1.Ready prepared) (hexpires : result.expiresAt = prepared.expiresAt) :
    (result.withPackets prepared registered).Regular := by
  refine ⟨h.indexed, fun id reference hreference => ?_, fun manifest hmanifest id hid => ?_,
    fun id hid => by cases hid⟩
  · rcases withPackets_reference hmap hreference with hfound | hmem
    · exact h.expires id reference hfound
    · exact (hready.expires reference hmem).trans hexpires.symm
  · cases hmanifest
    obtain ⟨reference, hmem, rfl⟩ := List.mem_map.mp hid
    exact result.mem_withPackets hmap hmem

theorem expiresAt_of_accepts {prepared : PreparedPacketReferencesV1} {now : UnixTimestampNanos}
    (h : result.accepts prepared now = true) : result.expiresAt = prepared.expiresAt := by
  simp only [accepts, Bool.and_eq_true, decide_eq_true_eq] at h
  exact h.1.1.1.2

theorem fresh_of_accepts (result : MemoryResult) {prepared : PreparedPacketReferencesV1}
    {now : UnixTimestampNanos} {reference : EvidenceReferenceV1}
    (h : result.accepts prepared now = true) (hmem : reference ∈ prepared.references) :
    result.references[reference.id]? = none := by
  simp only [accepts, Bool.and_eq_true, List.all_eq_true, Bool.not_eq_true'] at h
  refine ExtTreeMap.getElem?_eq_none fun hcontains => ?_
  rw [← ExtTreeMap.contains_iff_mem, h.2 reference hmem] at hcontains
  cases hcontains

end MemoryResult

namespace MemoryRunV1

variable [Sha256] {s : MemoryRunV1} {call : MemoryCallV1} {id : ResultId}

theorem Effect.regular {before after : Option MemoryResult} (h : Effect s call id before after)
    (hready : ∀ prepared ∈ s.prepared, Ready prepared)
    (hbefore : ∀ result, before = some result → result.Regular) :
    ∀ result, after = some result → result.Regular := by
  cases h with
  | same => exact hbefore
  | opened hregular hinside =>
      intro result hresult
      cases hresult
      exact hregular
  | published hnone =>
      intro result hresult
      cases hresult
      exact (hbefore _ rfl).publish
  | issued hexpires htargets =>
      intro result hresult
      cases hresult
      exact (hbefore _ rfl).issue hexpires
  | committed hcall hprepared hid hmap haccepts =>
      intro result hresult
      cases hresult
      exact (hbefore _ rfl).commit hmap (hready _ (List.mem_of_getElem? hprepared))
        (MemoryResult.expiresAt_of_accepts haccepts)
  | gone hcall =>
      intro result hresult
      cases hresult

theorem Sound.step (h : s.Sound) (call : MemoryCallV1) : (s.step call).Sound :=
  ⟨ready_step h.ready, fun id => effect_step.regular h.ready (h.regular id)⟩

theorem Sound.runCalls (h : s.Sound) (calls : List MemoryCallV1) : (s.runCalls calls).Sound := by
  induction calls generalizing s with
  | nil => exact h
  | cons call rest ih => exact ih (h.step call)

end MemoryRunV1

end Evidentrail
