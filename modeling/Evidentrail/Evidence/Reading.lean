import Evidentrail.Core.LedgerIndex
import Evidentrail.Evidence.Lines

/-!
# Reading a brief back

What a line reader finds in a rendered brief is what was shown, whatever the
evidence bytes are: one data line for every event, and the exactness, stream
and bytes of each event in order. So log bytes cannot add, remove or change a
line, and briefs that show different events are different texts.
-/

namespace Evidentrail

open Rust Lines

/-! ## Lines of a vocabulary -/

theorem newline_not_mem {text : List UInt8} (h : Printable text) : newline ∉ text :=
  fun hmem => absurd (h newline hmem) (by decide)

theorem BriefLine.newline_free {lines : List (Line UInt8)}
    (h : ∀ line ∈ lines, BriefLine line) : ∀ line ∈ lines, newline ∉ line.toList :=
  fun line hline => newline_not_mem (h line hline).printable

/-- Printable lines and newlines only. -/
theorem linesText_ascii {lines : List (Line UInt8)} (h : ∀ line ∈ lines, BriefLine line) :
    ∀ b ∈ linesText lines, b < 128 := by
  intro b hb
  obtain ⟨text, htext, hb⟩ := List.mem_flatMap.mp hb
  obtain ⟨line, hline, rfl⟩ := List.mem_map.mp htext
  rcases List.mem_append.mp hb with hb | hb
  · have hprint := (h line hline).printable b hb
    rw [isPrintable, Bool.and_eq_true, decide_eq_true_eq, decide_eq_true_eq] at hprint
    exact UInt8.lt_of_le_of_lt hprint.2 (by decide)
  · rw [List.mem_singleton.mp hb]
    decide

theorem length_splitLines {lines : List (Line UInt8)} (h : ∀ line ∈ lines, BriefLine line) :
    (splitLines newline (linesText lines)).length = lines.length := by
  rw [linesText, splitLines_unlines, List.length_map]
  intro text htext
  obtain ⟨line, hline, rfl⟩ := List.mem_map.mp htext
  exact BriefLine.newline_free h line hline

/-- What a reader finds under one of the labels that say what is shown. -/
def readValues (label : String) (text : List UInt8) : List (List UInt8) :=
  valuesOf newline (asciiBytes label) text

theorem readValues_linesText {lines : List (Line UInt8)} (h : ∀ line ∈ lines, BriefLine line)
    {label : String} (hlabel : label ∈ shownLabels) :
    readValues label (linesText lines) = Line.valuesOf (asciiBytes label) lines :=
  valuesOf_unlines newline (BriefLine.newline_free h)
    fun line hline => (h line hline).distinct hlabel

/-! ## Values by section -/

theorem valuesOf_append (label : List UInt8) (xs ys : List (Line UInt8)) :
    Line.valuesOf label (xs ++ ys) = Line.valuesOf label xs ++ Line.valuesOf label ys :=
  List.filterMap_append

/-- A line that is a heading or has one of these labels. -/
def HasLabelIn (labels : List String) (line : Line UInt8) : Prop :=
  (∃ text, line = headingLine text) ∨ ∃ label ∈ labels, ∃ value, line = labelledLine label value

/-- A section whose labels are others has no value under this label. -/
theorem valuesOf_eq_nil {labels : List String} {lines : List (Line UInt8)}
    (hlines : ∀ line ∈ lines, HasLabelIn labels line) {label : String}
    (hlabel : ∀ l ∈ labels, asciiBytes l ≠ asciiBytes label) :
    Line.valuesOf (asciiBytes label) lines = [] := by
  refine List.filterMap_eq_nil_iff.mpr fun line hline => ?_
  rcases hlines line hline with ⟨text, rfl⟩ | ⟨l, hl, value, rfl⟩
  · rfl
  · exact if_neg (hlabel l hl)

theorem headerLines_labels (ledger : EventLedger) (resultId : ResultId) (selection : String) :
    ∀ line ∈ headerLines ledger resultId selection,
      HasLabelIn ("  selection: " :: frameLabels) line := by
  simp only [headerLines, List.forall_mem_cons, List.not_mem_nil, false_implies, implies_true,
    and_true]
  exact ⟨.inl ⟨_, rfl⟩, .inr ⟨_, by decide, _, rfl⟩, .inl ⟨_, rfl⟩, .inr ⟨_, by decide, _, rfl⟩,
    .inr ⟨_, by decide, _, rfl⟩, .inl ⟨_, rfl⟩, .inl ⟨_, rfl⟩, .inr ⟨_, by decide, _, rfl⟩,
    .inr ⟨_, by decide, _, rfl⟩, .inr ⟨_, by decide, _, rfl⟩, .inl ⟨_, rfl⟩, .inl ⟨_, rfl⟩⟩

theorem coverageLines_labels (ledger : EventLedger) (counts : PresentationCounts) :
    ∀ line ∈ coverageLines ledger counts, HasLabelIn frameLabels line := by
  simp only [coverageLines, List.forall_mem_cons, List.not_mem_nil, false_implies,
    implies_true, and_true]
  exact ⟨.inl ⟨_, rfl⟩, .inl ⟨_, rfl⟩, .inr ⟨_, by decide, _, rfl⟩,
    .inr ⟨_, by decide, _, rfl⟩, .inr ⟨_, by decide, _, rfl⟩, .inr ⟨_, by decide, _, rfl⟩,
    .inr ⟨_, by decide, _, rfl⟩, .inr ⟨_, by decide, _, rfl⟩⟩

theorem noneLines_labels {α : Type} (evidence : List α) :
    ∀ line ∈ noneLines evidence, HasLabelIn [] line := by
  intro line hline
  rw [noneLines] at hline
  split at hline
  · exact .inl ⟨_, List.mem_singleton.mp hline⟩
  · cases hline

theorem frameLabels_ne {label : String} (hlabel : label ∈ shownLabels) :
    ∀ l ∈ frameLabels, asciiBytes l ≠ asciiBytes label := by
  have hall : ∀ label ∈ shownLabels, ∀ l ∈ frameLabels, asciiBytes l ≠ asciiBytes label := by
    decide
  exact hall label hlabel

/-- Event labels stand in the evidence section only. -/
theorem valuesOf_frame (ledger : EventLedger) (resultId : ResultId) (selection : String)
    {α : Type} (evidence : List α) (body : List (Line UInt8)) (counts : PresentationCounts)
    {label : String} (hlabel : label ∈ eventLabels) :
    Line.valuesOf (asciiBytes label) (headerLines ledger resultId selection
      ++ noneLines evidence ++ body ++ coverageLines ledger counts) =
        Line.valuesOf (asciiBytes label) body := by
  have hshown : label ∈ shownLabels := List.mem_cons_of_mem _ hlabel
  have hselection : ∀ label ∈ eventLabels, asciiBytes "  selection: " ≠ asciiBytes label := by
    decide
  have hheader := valuesOf_eq_nil (headerLines_labels ledger resultId selection)
    (List.forall_mem_cons.mpr ⟨hselection label hlabel, frameLabels_ne hshown⟩)
  have hnone := @valuesOf_eq_nil [] _ (noneLines_labels evidence) label
    (fun l hl => by cases hl)
  have hcoverage := valuesOf_eq_nil (coverageLines_labels ledger counts) (frameLabels_ne hshown)
  rw [valuesOf_append, valuesOf_append, valuesOf_append, hheader, hnone, hcoverage,
    List.append_nil, List.nil_append, List.nil_append]

/-! ## Values of the evidence section -/

theorem valuesOf_items {label : String} {value : CompiledEventRenderV1 → List UInt8}
    (h : ∀ item : PassthroughEvidenceV1,
      Line.valuesOf (asciiBytes label) (passthroughItemLines item) = [value item.render])
    (evidence : List PassthroughEvidenceV1) :
    Line.valuesOf (asciiBytes label) (evidence.flatMap passthroughItemLines) =
      (evidence.map PassthroughEvidenceV1.render).map value := by
  induction evidence with
  | nil => rfl
  | cons item rest ih =>
      rw [List.flatMap_cons, valuesOf_append, h, ih]
      rfl

theorem valuesOf_compiledEvents {label : String} {value : CompiledEventRenderV1 → List UInt8}
    (h : ∀ (eventIndex : Nat) (event : CompiledEventRenderV1),
      Line.valuesOf (asciiBytes label) (compiledEventLines eventIndex event) = [value event])
    (events : List CompiledEventRenderV1) : ∀ eventIndex : Nat,
    Line.valuesOf (asciiBytes label) (compiledEventsLines eventIndex events) =
      events.map value := by
  induction events with
  | nil => exact fun _ => rfl
  | cons event rest ih =>
      intro eventIndex
      rw [compiledEventsLines, valuesOf_append, h, ih]
      rfl

/-- The events a compiled brief shows, in order. -/
def shownEvents (evidence : List CompiledEvidencePacketV1) : List CompiledEventRenderV1 :=
  evidence.flatMap fun packet => packet.events.map CompiledEventEvidenceV1.render

theorem valuesOf_packets {label : String} (hlabel : label ∈ eventLabels)
    {value : CompiledEventRenderV1 → List UInt8}
    (h : ∀ (eventIndex : Nat) (event : CompiledEventRenderV1),
      Line.valuesOf (asciiBytes label) (compiledEventLines eventIndex event) = [value event])
    (evidence : List CompiledEvidencePacketV1) :
    Line.valuesOf (asciiBytes label) (evidence.flatMap compiledPacketLines) =
      (shownEvents evidence).map value := by
  have hpacket : ∀ label ∈ eventLabels, ∀ l ∈ packetLabels,
      asciiBytes l ≠ asciiBytes label := by decide
  induction evidence with
  | nil => rfl
  | cons packet rest ih =>
      rw [List.flatMap_cons, valuesOf_append, compiledPacketLines, valuesOf_append,
        valuesOf_compiledEvents h, ih, shownEvents, shownEvents, List.flatMap_cons,
        List.map_append]
      rw [@valuesOf_eq_nil packetLabels _ ?_ _ (hpacket label hlabel), List.nil_append]
      simp only [List.forall_mem_cons, List.not_mem_nil, false_implies, implies_true, and_true]
      exact ⟨.inr ⟨_, by decide, _, rfl⟩, .inr ⟨_, by decide, _, rfl⟩,
        .inr ⟨_, by decide, _, rfl⟩, .inr ⟨_, by decide, _, rfl⟩,
        .inr ⟨_, by decide, _, rfl⟩, .inr ⟨_, by decide, _, rfl⟩,
        .inr ⟨_, by decide, _, rfl⟩⟩

/-! ## Equal values are equal events -/

theorem asciiBytes_inj {s t : String} (h : asciiBytes s = asciiBytes t) : s = t :=
  String.toByteArray_inj.mp (ByteArray.ext (Array.toList_inj.mp h))

theorem escape_injective {xs ys : List UInt8}
    (h : escapeEvidenceBytes xs = escapeEvidenceBytes ys) : xs = ys := by
  have hread := unescape_escapeEvidenceBytes xs
  rw [h, unescape_escapeEvidenceBytes] at hread
  exact (Except.ok.inj hread).symm

/-- Three columns determine the events. -/
theorem eq_of_columns {xs ys : List CompiledEventRenderV1}
    (hexactness : xs.map (fun event => asciiBytes event.exactnessCode) =
      ys.map fun event => asciiBytes event.exactnessCode)
    (hstream : xs.map (fun event => asciiBytes event.streamCode) =
      ys.map fun event => asciiBytes event.streamCode)
    (hdata : xs.map (fun event => escapeEvidenceBytes event.authorizedBytes) =
      ys.map fun event => escapeEvidenceBytes event.authorizedBytes) : xs = ys := by
  induction xs generalizing ys with
  | nil => exact (List.map_eq_nil_iff.mp hdata.symm).symm
  | cons x xs ih =>
      cases ys with
      | nil => cases hdata
      | cons y ys =>
          obtain ⟨hexact, hexactness⟩ := List.cons.inj hexactness
          obtain ⟨hcode, hstream⟩ := List.cons.inj hstream
          obtain ⟨hbytes, hdata⟩ := List.cons.inj hdata
          have hhead : x = y := by
            obtain ⟨a, b, c⟩ := x
            obtain ⟨a', b', c'⟩ := y
            obtain rfl : a = a' := asciiBytes_inj hexact
            obtain rfl : b = b' := asciiBytes_inj hcode
            obtain rfl : c = c' := escape_injective hbytes
            rfl
          rw [hhead, ih hexactness hstream hdata]

/-! ## The rendered texts -/

theorem renderText_value {ledger : EventLedger} {resultId : ResultId}
    {evidence : List PassthroughEvidenceV1} {text : BoundedText}
    (h : renderText (.new maxWireObjectBytes) ledger resultId evidence = .ok text) :
    text.value = linesText (passthroughLines ledger resultId evidence) := by
  rw [renderText, BoundedText.pushAll_eq _ _ (by decide) (Nat.zero_le _)] at h
  split at h
  · cases h
    exact passthroughPieces_text ledger resultId evidence
  · cases h

theorem renderCompiledText_value {ledger : EventLedger} {resultId : ResultId}
    {evidence : List CompiledEvidencePacketV1} {counts : PresentationCounts}
    {text : BoundedText}
    (h : renderCompiledText (.new maxWireObjectBytes) ledger resultId evidence counts =
      .ok text) :
    text.value = linesText (compiledLines ledger resultId evidence counts) := by
  rw [renderCompiledText, BoundedText.pushAll_eq _ _ (by decide) (Nat.zero_le _)] at h
  split at h
  · cases h
    exact compiledPieces_text ledger resultId evidence counts
  · cases h

/-- Lines around the evidence: 12 of header, 8 of coverage, and `(none)` when
no packet is shown. -/
def frameLineCount (packets : Nat) : Nat := 20 + if packets = 0 then 1 else 0

theorem length_noneLines {α : Type} (evidence : List α) :
    (noneLines evidence).length = if evidence.length = 0 then 1 else 0 := by
  cases evidence with
  | nil => rfl
  | cons a rest => rfl

theorem length_passthroughLines (ledger : EventLedger) (resultId : ResultId)
    (evidence : List PassthroughEvidenceV1) :
    (passthroughLines ledger resultId evidence).length =
      frameLineCount evidence.length + 6 * evidence.length := by
  have hitem : ∀ item, (passthroughItemLines item).length = 6 := fun _ => rfl
  have hheader : (headerLines ledger resultId "PASSTHROUGH").length = 12 := rfl
  have hcoverage : (coverageLines ledger ⟨ledger.events.length, 0, 0⟩).length = 8 := rfl
  simp only [passthroughLines, List.length_append, List.length_flatMap, hitem,
    length_noneLines, hheader, hcoverage, List.map_const', List.sum_replicate_nat,
    frameLineCount]
  omega

theorem length_compiledEventsLines (events : List CompiledEventRenderV1) :
    ∀ eventIndex : Nat, (compiledEventsLines eventIndex events).length = 5 * events.length := by
  induction events with
  | nil => exact fun _ => rfl
  | cons event rest ih =>
      intro eventIndex
      have hevent : (compiledEventLines eventIndex event).length = 5 := rfl
      rw [compiledEventsLines, List.length_append, ih, hevent, List.length_cons]
      omega

theorem length_compiledPackets (evidence : List CompiledEvidencePacketV1) :
    (evidence.flatMap compiledPacketLines).length =
      7 * evidence.length + 5 * (shownEvents evidence).length := by
  induction evidence with
  | nil => rfl
  | cons packet rest ih =>
      have hhead : (compiledPacketLines packet).length = 7 + 5 * packet.events.length := by
        rw [compiledPacketLines, List.length_append, length_compiledEventsLines,
          List.length_map]
        rfl
      have hshown : (shownEvents (packet :: rest)).length =
          packet.events.length + (shownEvents rest).length := by
        rw [shownEvents, List.flatMap_cons, List.length_append, List.length_map]
        rfl
      rw [List.flatMap_cons, List.length_append, ih, hhead, hshown, List.length_cons]
      omega

theorem length_compiledLines (ledger : EventLedger) (resultId : ResultId)
    (evidence : List CompiledEvidencePacketV1) (counts : PresentationCounts) :
    (compiledLines ledger resultId evidence counts).length =
      frameLineCount evidence.length + 7 * evidence.length +
        5 * (shownEvents evidence).length := by
  have hheader : (headerLines ledger resultId "COMPILED").length = 12 := rfl
  have hcoverage : (coverageLines ledger counts).length = 8 := rfl
  simp only [compiledLines, List.length_append, length_compiledPackets, length_noneLines,
    hheader, hcoverage, frameLineCount]
  omega

/-- What a reader finds under an event label of a passthrough brief. -/
theorem readValues_passthrough (ledger : EventLedger) (resultId : ResultId)
    (evidence : List PassthroughEvidenceV1) {label : String} (hlabel : label ∈ eventLabels)
    {value : CompiledEventRenderV1 → List UInt8}
    (h : ∀ item : PassthroughEvidenceV1,
      Line.valuesOf (asciiBytes label) (passthroughItemLines item) = [value item.render]) :
    readValues label (linesText (passthroughLines ledger resultId evidence)) =
      (evidence.map PassthroughEvidenceV1.render).map value := by
  rw [readValues_linesText (passthroughLines_brief ledger resultId evidence)
    (List.mem_cons_of_mem _ hlabel), passthroughLines, valuesOf_frame _ _ _ _ _ _ hlabel,
    valuesOf_items h]

/-- What a reader finds under an event label of a compiled brief. -/
theorem readValues_compiled (ledger : EventLedger) (resultId : ResultId)
    (evidence : List CompiledEvidencePacketV1) (counts : PresentationCounts)
    {label : String} (hlabel : label ∈ eventLabels)
    {value : CompiledEventRenderV1 → List UInt8}
    (h : ∀ (eventIndex : Nat) (event : CompiledEventRenderV1),
      Line.valuesOf (asciiBytes label) (compiledEventLines eventIndex event) = [value event]) :
    readValues label (linesText (compiledLines ledger resultId evidence counts)) =
      (shownEvents evidence).map value := by
  rw [readValues_linesText (compiledLines_brief ledger resultId evidence counts)
    (List.mem_cons_of_mem _ hlabel), compiledLines, valuesOf_frame _ _ _ _ _ _ hlabel,
    valuesOf_packets hlabel h]

/-- The labels above an event's exactness, stream and bytes. -/
structure EventColumns where
  exactness : String
  stream : String
  data : String

def passthroughColumns : EventColumns := ⟨"    exactness: ", "    stream: ", "    data: "⟩
def compiledColumns : EventColumns := ⟨"      exactness: ", "      stream: ", "      data: "⟩

/-- A reader finds exactly these events. -/
structure ReadsEvents (columns : EventColumns) (text : List UInt8)
    (events : List CompiledEventRenderV1) : Prop where
  exactness : readValues columns.exactness text =
    events.map fun event => asciiBytes event.exactnessCode
  stream : readValues columns.stream text = events.map fun event => asciiBytes event.streamCode
  data : readValues columns.data text =
    events.map fun event => escapeEvidenceBytes event.authorizedBytes

theorem ReadsEvents.inj {columns : EventColumns} {text : List UInt8}
    {xs ys : List CompiledEventRenderV1} (hx : ReadsEvents columns text xs)
    (hy : ReadsEvents columns text ys) : xs = ys :=
  eq_of_columns (hx.exactness.symm.trans hy.exactness)
    (hx.stream.symm.trans hy.stream) (hx.data.symm.trans hy.data)

theorem passthrough_reads (ledger : EventLedger) (resultId : ResultId)
    (evidence : List PassthroughEvidenceV1) :
    ReadsEvents passthroughColumns (linesText (passthroughLines ledger resultId evidence))
      (evidence.map PassthroughEvidenceV1.render) where
  exactness := readValues_passthrough ledger resultId evidence (by decide) fun _ => rfl
  stream := readValues_passthrough ledger resultId evidence (by decide) fun _ => rfl
  data := readValues_passthrough ledger resultId evidence (by decide) fun _ => rfl

theorem compiled_reads (ledger : EventLedger) (resultId : ResultId)
    (evidence : List CompiledEvidencePacketV1) (counts : PresentationCounts) :
    ReadsEvents compiledColumns
      (linesText (compiledLines ledger resultId evidence counts)) (shownEvents evidence) where
  exactness := readValues_compiled ledger resultId evidence counts (by decide) fun _ _ => rfl
  stream := readValues_compiled ledger resultId evidence counts (by decide) fun _ _ => rfl
  data := readValues_compiled ledger resultId evidence counts (by decide) fun _ _ => rfl

/-- The two kinds of brief say which they are. -/
theorem passthrough_ne_compiled (ledger ledger' : EventLedger) (resultId resultId' : ResultId)
    (evidence : List PassthroughEvidenceV1) (evidence' : List CompiledEvidencePacketV1)
    (counts : PresentationCounts) :
    linesText (passthroughLines ledger resultId evidence) ≠
      linesText (compiledLines ledger' resultId' evidence' counts) := by
  intro heq
  have hfree : ∀ lines : List (Line UInt8), (∀ line ∈ lines, BriefLine line) →
      ∀ text ∈ lines.map Line.toList, newline ∉ text := by
    intro lines hlines text htext
    obtain ⟨line, hline, rfl⟩ := List.mem_map.mp htext
    exact BriefLine.newline_free hlines line hline
  have hlines := unlines_inj newline (hfree _ (passthroughLines_brief ledger resultId evidence))
    (hfree _ (compiledLines_brief ledger' resultId' evidence' counts)) heq
  have hselection := congrArg (fun lines => lines[4]?) hlines
  exact absurd (Option.some.inj hselection) (by decide)

/-- What an event looks like in a brief. -/
def Event.render (event : Event) : CompiledEventRenderV1 :=
  ⟨event.exactnessBasis.code, event.lane.stream.code, event.raw⟩

/-- A passthrough brief shows the ledger's events, in ledger order. -/
theorem passthroughEvidence_render {ledger : EventLedger}
    {references : List EvidenceReferenceV1} (h : references.length = ledger.events.length) :
    (passthroughEvidence ledger references).map PassthroughEvidenceV1.render =
      ledger.events.map Event.render := by
  rw [passthroughEvidence, List.map_map]
  have hzip : ((ledger.events.zipIdx.zip references).map Prod.fst).map Prod.fst =
      ledger.events := by
    rw [List.map_fst_zip, List.zipIdx_map_fst]
    rw [List.length_zipIdx, h]
  calc (ledger.events.zipIdx.zip references).map (fun pair => pair.1.1.render)
      = (((ledger.events.zipIdx.zip references).map Prod.fst).map Prod.fst).map Event.render := by
        rw [List.map_map, List.map_map]
        rfl
    _ = ledger.events.map Event.render := by rw [hzip]

/-- A packet shows those of the ledger's events that it has. -/
theorem compiledEvents_render (ledger : EventLedger) (packetSet : Std.ExtTreeSet EventId) :
    (compiledEvents ledger packetSet).map CompiledEventEvidenceV1.render =
      (ledger.events.filter fun event => event.id ∈ packetSet).map Event.render := by
  rw [compiledEvents, List.map_map]
  rfl

/-- Log bytes cannot forge the structure of a brief. Rendered texts are ASCII,
the number of their lines is a function of the numbers of packets and events,
a line reader finds exactly the shown events with one data line each, and equal
texts show equal events. The escape is a bijection onto what `unescape`
accepts, and `escapedLen` is its length. -/
theorem brief_structure_not_forged :
    (∀ (ledger : EventLedger) (resultId : ResultId) (evidence : List PassthroughEvidenceV1)
        (text : BoundedText),
      renderText (.new maxWireObjectBytes) ledger resultId evidence = .ok text →
        (∀ b ∈ text.value, b < 128) ∧
        (splitLines newline text.value).length =
          frameLineCount evidence.length + 6 * evidence.length ∧
        ReadsEvents passthroughColumns text.value
          (evidence.map PassthroughEvidenceV1.render)) ∧
    (∀ (ledger : EventLedger) (resultId : ResultId) (evidence : List CompiledEvidencePacketV1)
        (counts : PresentationCounts) (text : BoundedText),
      renderCompiledText (.new maxWireObjectBytes) ledger resultId evidence counts = .ok text →
        (∀ b ∈ text.value, b < 128) ∧
        (splitLines newline text.value).length = frameLineCount evidence.length +
          7 * evidence.length + 5 * (shownEvents evidence).length ∧
        ReadsEvents compiledColumns text.value (shownEvents evidence)) ∧
    (∀ (ledger ledger' : EventLedger) (resultId resultId' : ResultId)
        (evidence evidence' : List PassthroughEvidenceV1) (text text' : BoundedText),
      renderText (.new maxWireObjectBytes) ledger resultId evidence = .ok text →
      renderText (.new maxWireObjectBytes) ledger' resultId' evidence' = .ok text' →
      evidence.map PassthroughEvidenceV1.render ≠ evidence'.map PassthroughEvidenceV1.render →
        text.value ≠ text'.value) ∧
    (∀ (ledger ledger' : EventLedger) (resultId resultId' : ResultId)
        (evidence evidence' : List CompiledEvidencePacketV1)
        (counts counts' : PresentationCounts) (text text' : BoundedText),
      renderCompiledText (.new maxWireObjectBytes) ledger resultId evidence counts = .ok text →
      renderCompiledText (.new maxWireObjectBytes) ledger' resultId' evidence' counts' =
        .ok text' →
      shownEvents evidence ≠ shownEvents evidence' → text.value ≠ text'.value) ∧
    (∀ (ledger ledger' : EventLedger) (resultId resultId' : ResultId)
        (evidence : List PassthroughEvidenceV1) (evidence' : List CompiledEvidencePacketV1)
        (counts : PresentationCounts) (text text' : BoundedText),
      renderText (.new maxWireObjectBytes) ledger resultId evidence = .ok text →
      renderCompiledText (.new maxWireObjectBytes) ledger' resultId' evidence' counts =
        .ok text' → text.value ≠ text'.value) ∧
    (∀ bytes : List UInt8, unescapeEvidenceBytes (escapeEvidenceBytes bytes) = .ok bytes) ∧
    (∀ encoded bytes : List UInt8, unescapeEvidenceBytes encoded = .ok bytes →
      escapeEvidenceBytes bytes = encoded) ∧
    (∀ bytes : List UInt8,
      escapedLen bytes = u64TryFrom (escapeEvidenceBytes bytes).length) := by
  refine ⟨?_, ?_, ?_, ?_, ?_, unescape_escapeEvidenceBytes, fun _ _ => escape_of_unescape,
    escapedLen_eq⟩
  · intro ledger resultId evidence text htext
    rw [renderText_value htext]
    have hbrief := passthroughLines_brief ledger resultId evidence
    exact ⟨linesText_ascii hbrief, (length_splitLines hbrief).trans
      (length_passthroughLines ledger resultId evidence),
      passthrough_reads ledger resultId evidence⟩
  · intro ledger resultId evidence counts text htext
    rw [renderCompiledText_value htext]
    have hbrief := compiledLines_brief ledger resultId evidence counts
    exact ⟨linesText_ascii hbrief, (length_splitLines hbrief).trans
      (length_compiledLines ledger resultId evidence counts),
      compiled_reads ledger resultId evidence counts⟩
  · intro ledger ledger' resultId resultId' evidence evidence' text text' htext htext' hne heq
    rw [renderText_value htext, renderText_value htext'] at heq
    have hreads := passthrough_reads ledger resultId evidence
    rw [heq] at hreads
    exact hne (hreads.inj (passthrough_reads ledger' resultId' evidence'))
  · intro ledger ledger' resultId resultId' evidence evidence' counts counts' text text' htext
      htext' hne heq
    rw [renderCompiledText_value htext, renderCompiledText_value htext'] at heq
    have hreads := compiled_reads ledger resultId evidence counts
    rw [heq] at hreads
    exact hne (hreads.inj (compiled_reads ledger' resultId' evidence' counts'))
  · intro ledger ledger' resultId resultId' evidence evidence' counts text text' htext htext'
    rw [renderText_value htext, renderCompiledText_value htext']
    exact passthrough_ne_compiled ledger ledger' resultId resultId' evidence evidence' counts

/-! ## Two lines of a forger -/

/-- Line breaks, a heading, labels and escapes, as they would stand in a brief. -/
def forgingLines : List RawEnvelopeV1 :=
  [streamLine 0 .stderr 0 ⟨asciiBytes "a\n\n  [E2]\n    data: b", by decide⟩,
    streamLine 1 .stdout 0 ⟨asciiBytes "c\\x0a\n\nCOVERAGE\n  shown_verbatim: 9", by decide⟩]

/-- Their ledger, and a reference to each event. -/
def forgedLedger [Sha256] :
    Option (EventLedger × List EvidenceReferenceV1 × EvidenceReferenceV1) := do
  let ledger ← replayLedger forgingLines 56
  let references ← ledger.events.mapM fun event => (EvidenceReferenceV1.issue (.repeated 9)
    [.event event.id] [.exact] .epoch ⟨2, by decide, by decide⟩).toOption
  let first ← references.head?
  some (ledger, references, first)

/-- A packet of all events. -/
def wholePacket (ledger : EventLedger) (reference : EvidenceReferenceV1) :
    CompiledEvidencePacketV1 where
  ordinal := 0
  packetId := .repeated 6
  reference := reference
  canonicalEventIds := ledger.events.map (·.id)
  events := compiledEvents ledger (.ofList (ledger.events.map (·.id)))
  affinities := [⟨.repeated 3, ⟨700000, by decide, by decide⟩⟩]
  facetKinds := [.queryTerm]
  marginalGain := 7
  forcingConstraint := .densityGreedy
  composableTokenUpperBound := ⟨⟨.repeated 0⟩, 40, by decide, by decide⟩

theorem shownEvents_wholePacket (ledger : EventLedger) (reference : EvidenceReferenceV1) :
    shownEvents [wholePacket ledger reference] = ledger.events.map Event.render := by
  have hall : ledger.events.filter (fun event =>
      event.id ∈ Std.ExtTreeSet.ofList (ledger.events.map (·.id))) = ledger.events := by
    refine List.filter_eq_self.mpr fun event hevent => decide_eq_true ?_
    exact Std.ExtTreeSet.mem_ofList.mpr
      (List.contains_iff_mem.mpr (List.mem_map_of_mem hevent))
  rw [shownEvents, List.flatMap_singleton, wholePacket, compiledEvents_render, hall]

/-- Both briefs of the ledger have the lines of two events, and a reader finds the
two events. -/
theorem brief_structure_not_forged_lines :
    letI := fips180
    ∃ ledger references first text text', ledger.Obtained ∧ ledger.events.length = 2 ∧
      renderText (.new maxWireObjectBytes) ledger (.repeated 9)
        (passthroughEvidence ledger references) = .ok text ∧
      renderCompiledText (.new maxWireObjectBytes) ledger (.repeated 9)
        [wholePacket ledger first] ⟨2, 0, 0⟩ = .ok text' ∧
      (splitLines newline text.value).length = 20 + 6 * 2 ∧
      (splitLines newline text'.value).length = 20 + 7 + 5 * 2 ∧
      ReadsEvents passthroughColumns text.value (ledger.events.map Event.render) ∧
      ReadsEvents compiledColumns text'.value (ledger.events.map Event.render) ∧
      text.value ≠ text'.value := by
  rw [fips180_eq]
  let := fips180Evaluated
  have hrun : forgedLedger.map (fun sample =>
      (sample.1.events.length, sample.2.1.length,
        (renderText (.new maxWireObjectBytes) sample.1 (.repeated 9)
          (passthroughEvidence sample.1 sample.2.1)).toOption.isSome,
        (renderCompiledText (.new maxWireObjectBytes) sample.1 (.repeated 9)
          [wholePacket sample.1 sample.2.2] ⟨2, 0, 0⟩).toOption.isSome)) =
        some (2, 2, true, true) := by
    decide +kernel
  obtain ⟨sample, hsample, hshape⟩ := Option.map_eq_some_iff.mp hrun
  simp only [forgedLedger, Option.bind_eq_bind, Option.bind_eq_some_iff,
    Option.some.injEq] at hsample
  obtain ⟨ledger, hledger, references, _, first, _, rfl⟩ := hsample
  simp only [Prod.mk.injEq] at hshape
  obtain ⟨hevents, hreferences, hpass, hcompiled⟩ := hshape
  obtain ⟨text, htext⟩ := Option.isSome_iff_exists.mp hpass
  obtain ⟨text', htext'⟩ := Option.isSome_iff_exists.mp hcompiled
  replace htext := toOption_eq_some.mp htext
  replace htext' := toOption_eq_some.mp htext'
  obtain ⟨hverbatim, hpackets, _, _, hkinds, _⟩ := brief_structure_not_forged
  obtain ⟨_, hlines, hreads⟩ := hverbatim _ _ _ _ htext
  obtain ⟨_, hlines', hreads'⟩ := hpackets _ _ _ _ _ htext'
  rw [passthroughEvidence_render (hreferences.trans hevents.symm)] at hreads
  rw [shownEvents_wholePacket] at hlines' hreads'
  have hshown : (passthroughEvidence ledger references).length = 2 := by
    simp [passthroughEvidence, hevents, hreferences]
  rw [hshown] at hlines
  rw [List.length_map, hevents] at hlines'
  exact ⟨ledger, references, first, text, text', obtained_of_replayLedger hledger, hevents,
    htext, htext', hlines, hlines', hreads, hreads', hkinds _ _ _ _ _ _ _ _ _ htext htext'⟩

end Evidentrail
