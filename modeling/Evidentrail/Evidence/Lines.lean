import Evidentrail.Evidence.Brief
import Evidentrail.Lib.Lines

/-!
# The lines of a brief

A brief is read line by line. Its pieces are put together here as lines: a
heading, or a label followed by a value. No value contains a newline, so the
lines of the text are these lines, whatever bytes the evidence holds, and a
reader that looks for a label finds exactly the values written under it.
-/

namespace Evidentrail

open Rust Ascii Lines

/-! ## Line lists -/

def headingLine (text : String) : Line UInt8 := .heading (asciiBytes text)

def labelledLine (label : String) (value : List UInt8) : Line UInt8 :=
  .field (asciiBytes label) value

/-- `to_string` of an unsigned integer. -/
def decimal (n : Nat) : List UInt8 := asciiBytes (toString n)

def headerLines (ledger : EventLedger) (resultId : ResultId) (selection : String) :
    List (Line UInt8) :=
  [headingLine "STATUS", labelledLine "  result: " resultId.canonicalToken,
    headingLine "  untrusted_data: true",
    labelledLine "  acquisition: "
      (renderedBytes (acquisitionPieces ledger.completion.completeness)),
    labelledLine "  selection: " (asciiBytes selection), headingLine "", headingLine "SCOPE",
    labelledLine "  acknowledged_records: "
      (decimal ledger.acquisitionReceipt.counts.acknowledged),
    labelledLine "  persisted_events: " (decimal ledger.events.length),
    labelledLine "  policy_omitted_records: "
      (decimal ledger.acquisitionReceipt.counts.omittedByPolicy),
    headingLine "", headingLine "EVIDENCE"]

def noneLines {α : Type} (evidence : List α) : List (Line UInt8) :=
  if evidence = [] then [headingLine "  (none)"] else []

def coverageLines (ledger : EventLedger) (counts : PresentationCounts) : List (Line UInt8) :=
  [headingLine "", headingLine "COVERAGE",
    labelledLine "  shown_verbatim: " (decimal counts.shownVerbatim),
    labelledLine "  pattern_represented: " (decimal counts.patternRepresented),
    labelledLine "  retained_raw: " (decimal counts.retainedRaw),
    labelledLine "  source_exact_records: "
      (decimal ledger.acquisitionReceipt.counts.sourceExact),
    labelledLine "  post_policy_records: "
      (decimal ledger.acquisitionReceipt.counts.postPolicy),
    labelledLine "  policy_omitted_records: "
      (decimal ledger.acquisitionReceipt.counts.omittedByPolicy)]

def passthroughItemLines (item : PassthroughEvidenceV1) : List (Line UInt8) :=
  [labelledLine "  [E" (decimal (item.ordinal + 1) ++ asciiBytes "]"),
    labelledLine "    expand: E" (decimal (item.ordinal + 1) ++ asciiBytes " " ++
      renderedBytes (commaSeparated
        (item.reference.allowedRelations.map ExpansionRelationV1.code))),
    labelledLine "    exactness: " (asciiBytes item.exactnessBasis.code),
    labelledLine "    stream: " (asciiBytes item.stream.code),
    headingLine "    data_encoding: ascii_byte_escape_v1",
    labelledLine "    data: " (escapeEvidenceBytes item.authorizedBytes)]

def passthroughLines (ledger : EventLedger) (resultId : ResultId)
    (evidence : List PassthroughEvidenceV1) : List (Line UInt8) :=
  headerLines ledger resultId "PASSTHROUGH" ++ noneLines evidence
    ++ evidence.flatMap passthroughItemLines
    ++ coverageLines ledger ⟨ledger.events.length, 0, 0⟩

def compiledEventLines (eventIndex : Nat) (event : CompiledEventRenderV1) :
    List (Line UInt8) :=
  [labelledLine "    event_" (decimal (eventIndex + 1) ++ asciiBytes ":"),
    labelledLine "      exactness: " (asciiBytes event.exactnessCode),
    labelledLine "      stream: " (asciiBytes event.streamCode),
    headingLine "      data_encoding: ascii_byte_escape_v1",
    labelledLine "      data: " (escapeEvidenceBytes event.authorizedBytes)]

def compiledEventsLines (eventIndex : Nat) : List CompiledEventRenderV1 → List (Line UInt8)
  | [] => []
  | event :: rest =>
      compiledEventLines eventIndex event ++ compiledEventsLines (eventIndex + 1) rest

def compiledPacketLines (packet : CompiledEvidencePacketV1) : List (Line UInt8) :=
  [labelledLine "  [E" (decimal (packet.ordinal + 1) ++ asciiBytes "]"),
    labelledLine "    expand: E" (decimal (packet.ordinal + 1) ++ asciiBytes " exact"),
    labelledLine "    forcing: " (asciiBytes packet.forcingConstraint.code),
    labelledLine "    marginal_gain_numerator: " (decimal packet.marginalGain),
    labelledLine "    composable_token_upper_bound: "
      (decimal packet.composableTokenUpperBound.upperBoundTokens),
    labelledLine "    roles: "
      (renderedBytes (commaSeparated (packet.facetKinds.map ProductionFacetKindV1.code))),
    labelledLine "    event_count: " (decimal packet.events.length)]
    ++ compiledEventsLines 0 (packet.events.map CompiledEventEvidenceV1.render)

def compiledLines (ledger : EventLedger) (resultId : ResultId)
    (evidence : List CompiledEvidencePacketV1) (counts : PresentationCounts) :
    List (Line UInt8) :=
  headerLines ledger resultId "COMPILED" ++ noneLines evidence
    ++ evidence.flatMap compiledPacketLines ++ coverageLines ledger counts

/-! ## The text of the lines -/

/-- The text these lines make. -/
def linesText (lines : List (Line UInt8)) : List UInt8 :=
  unlines newline (lines.map Line.toList)

theorem linesText_append (xs ys : List (Line UInt8)) :
    linesText (xs ++ ys) = linesText xs ++ linesText ys := by
  rw [linesText, List.map_append, unlines_append]
  rfl

theorem linesText_nil : linesText [] = [] := by
  rw [linesText, List.map_nil]
  rfl

theorem linesText_heading (text : String) (rest : List (Line UInt8)) :
    linesText (headingLine text :: rest) = asciiBytes text ++ newline :: linesText rest := by
  rw [linesText, List.map_cons, unlines_cons]
  rfl

theorem linesText_labelled (label : String) (value : List UInt8) (rest : List (Line UInt8)) :
    linesText (labelledLine label value :: rest) =
      asciiBytes label ++ (value ++ newline :: linesText rest) := by
  rw [linesText, List.map_cons, unlines_cons]
  simp only [labelledLine, Line.toList, List.append_assoc]
  rfl

theorem renderedBytes_str (s : String) (rest : List Piece) :
    renderedBytes (.str s :: rest) = asciiBytes s ++ renderedBytes rest := rfl

theorem renderedBytes_nat (n : Nat) (rest : List Piece) :
    renderedBytes (.nat n :: rest) = decimal n ++ renderedBytes rest := by
  rw [renderedBytes, List.flatMap_cons]
  rfl

theorem renderedBytes_text (value : List UInt8) (rest : List Piece) :
    renderedBytes (.text value :: rest) = value ++ renderedBytes rest := by
  rw [renderedBytes, List.flatMap_cons]
  rfl

theorem renderedBytes_escaped (bytes : List UInt8) (rest : List Piece) :
    renderedBytes (.escaped bytes :: rest) =
      escapeEvidenceBytes bytes ++ renderedBytes rest := by
  rw [renderedBytes, List.flatMap_cons]
  rfl

theorem renderedBytes_nil : renderedBytes [] = [] := rfl

theorem headerPieces_text (ledger : EventLedger) (resultId : ResultId) (selection : String)
    {status : List Piece} (hstatus : renderedBytes status = asciiBytes "STATUS\n  result: ")
    {literal : String}
    (hselection : asciiBytes literal = newline :: (asciiBytes "  selection: " ++
      (asciiBytes selection ++ [newline, newline]))) :
    renderedBytes (headerPieces ledger resultId status literal) =
      linesText (headerLines ledger resultId selection) := by
  have h1 : asciiBytes "STATUS\n  result: " =
      asciiBytes "STATUS" ++ newline :: asciiBytes "  result: " := rfl
  have h2 : asciiBytes "\n  untrusted_data: true\n  acquisition: " =
      newline :: (asciiBytes "  untrusted_data: true" ++
        newline :: asciiBytes "  acquisition: ") := rfl
  have h3 : asciiBytes "SCOPE\n  acknowledged_records: " =
      asciiBytes "SCOPE" ++ newline :: asciiBytes "  acknowledged_records: " := rfl
  have h4 : asciiBytes "\n  persisted_events: " =
      newline :: asciiBytes "  persisted_events: " := rfl
  have h5 : asciiBytes "\n  policy_omitted_records: " =
      newline :: asciiBytes "  policy_omitted_records: " := rfl
  have h6 : asciiBytes "\n\nEVIDENCE\n" =
      newline :: newline :: (asciiBytes "EVIDENCE" ++ [newline]) := rfl
  have h7 : asciiBytes "" = [] := rfl
  simp only [headerPieces, headerLines, renderedBytes_append, renderedBytes_text,
    renderedBytes_str, renderedBytes_nat, renderedBytes_nil, linesText_heading,
    linesText_labelled, linesText_nil, hstatus, hselection, h1, h2, h3, h4, h5, h6, h7,
    List.append_assoc, List.cons_append, List.nil_append, List.append_nil]

theorem coveragePieces_text (ledger : EventLedger) (counts : PresentationCounts) :
    renderedBytes (coveragePieces ledger counts) = linesText (coverageLines ledger counts) := by
  have h1 : asciiBytes "\nCOVERAGE\n  shown_verbatim: " =
      newline :: (asciiBytes "COVERAGE" ++ newline :: asciiBytes "  shown_verbatim: ") := rfl
  have h2 : asciiBytes "\n  pattern_represented: " =
      newline :: asciiBytes "  pattern_represented: " := rfl
  have h3 : asciiBytes "\n  retained_raw: " = newline :: asciiBytes "  retained_raw: " := rfl
  have h4 : asciiBytes "\n  source_exact_records: " =
      newline :: asciiBytes "  source_exact_records: " := rfl
  have h5 : asciiBytes "\n  post_policy_records: " =
      newline :: asciiBytes "  post_policy_records: " := rfl
  have h6 : asciiBytes "\n  policy_omitted_records: " =
      newline :: asciiBytes "  policy_omitted_records: " := rfl
  have h7 : asciiBytes "\n" = [newline] := rfl
  have h8 : asciiBytes "" = [] := rfl
  simp only [coveragePieces, coverageLines, renderedBytes_str, renderedBytes_nat,
    renderedBytes_nil, linesText_heading, linesText_labelled, linesText_nil, h1, h2, h3, h4,
    h5, h6, h7, h8, List.append_assoc, List.cons_append, List.nil_append]

theorem nonePieces_text {α : Type} (evidence : List α) :
    renderedBytes (nonePieces evidence) = linesText (noneLines evidence) := by
  rw [nonePieces, noneLines]
  split
  · rfl
  · rfl

theorem passthroughItemPieces_text (item : PassthroughEvidenceV1) :
    renderedBytes (passthroughItemPieces item) = linesText (passthroughItemLines item) := by
  have h1 : asciiBytes "]\n    expand: E" =
      asciiBytes "]" ++ newline :: asciiBytes "    expand: E" := rfl
  have h2 : asciiBytes "\n    exactness: " = newline :: asciiBytes "    exactness: " := rfl
  have h3 : asciiBytes "\n    stream: " = newline :: asciiBytes "    stream: " := rfl
  have h4 : asciiBytes "\n    data_encoding: ascii_byte_escape_v1\n    data: " =
      newline :: (asciiBytes "    data_encoding: ascii_byte_escape_v1" ++
        newline :: asciiBytes "    data: ") := rfl
  have h5 : asciiBytes "\n" = [newline] := rfl
  simp only [passthroughItemPieces, passthroughItemLines, renderedBytes_append,
    renderedBytes_str, renderedBytes_nat, renderedBytes_escaped, renderedBytes_nil,
    linesText_heading, linesText_labelled, linesText_nil, h1, h2, h3, h4, h5,
    List.append_assoc, List.cons_append, List.nil_append]

theorem compiledEventPieces_text (eventIndex : Nat) (event : CompiledEventRenderV1) :
    renderedBytes (compiledEventPieces eventIndex event) =
      linesText (compiledEventLines eventIndex event) := by
  have h1 : asciiBytes ":\n      exactness: " =
      asciiBytes ":" ++ newline :: asciiBytes "      exactness: " := rfl
  have h2 : asciiBytes "\n      stream: " = newline :: asciiBytes "      stream: " := rfl
  have h3 : asciiBytes "\n      data_encoding: ascii_byte_escape_v1\n      data: " =
      newline :: (asciiBytes "      data_encoding: ascii_byte_escape_v1" ++
        newline :: asciiBytes "      data: ") := rfl
  have h4 : asciiBytes "\n" = [newline] := rfl
  simp only [compiledEventPieces, compiledEventLines, renderedBytes_str, renderedBytes_nat,
    renderedBytes_escaped, renderedBytes_nil, linesText_heading, linesText_labelled,
    linesText_nil, h1, h2, h3, h4, List.append_assoc, List.cons_append, List.nil_append]

theorem compiledEventsPieces_text (events : List CompiledEventRenderV1) :
    ∀ eventIndex : Nat, renderedBytes (compiledEventsPieces eventIndex events) =
      linesText (compiledEventsLines eventIndex events) := by
  induction events with
  | nil => exact fun _ => rfl
  | cons event rest ih =>
      intro eventIndex
      rw [compiledEventsPieces, compiledEventsLines, renderedBytes_append, linesText_append,
        compiledEventPieces_text, ih]

theorem compiledPacketPieces_text (packet : CompiledEvidencePacketV1) :
    renderedBytes packet.pieces = linesText (compiledPacketLines packet) := by
  have h1 : asciiBytes "]\n    expand: E" =
      asciiBytes "]" ++ newline :: asciiBytes "    expand: E" := rfl
  have h2 : asciiBytes " exact\n    forcing: " =
      asciiBytes " exact" ++ newline :: asciiBytes "    forcing: " := rfl
  have h3 : asciiBytes "\n    marginal_gain_numerator: " =
      newline :: asciiBytes "    marginal_gain_numerator: " := rfl
  have h4 : asciiBytes "\n    composable_token_upper_bound: " =
      newline :: asciiBytes "    composable_token_upper_bound: " := rfl
  have h5 : asciiBytes "\n    roles: " = newline :: asciiBytes "    roles: " := rfl
  have h6 : asciiBytes "\n    event_count: " = newline :: asciiBytes "    event_count: " := rfl
  have h7 : asciiBytes "\n" = [newline] := rfl
  simp only [CompiledEvidencePacketV1.pieces, compiledPacketPieces, compiledPacketLines,
    renderedBytes_append, renderedBytes_str, renderedBytes_nat, linesText_labelled,
    compiledEventsPieces_text, List.length_map, h1, h2, h3, h4, h5, h6, h7, List.append_assoc,
    List.cons_append, List.nil_append]

theorem flatMap_text {α : Type} {pieces : α → List Piece} {lines : α → List (Line UInt8)}
    (h : ∀ a, renderedBytes (pieces a) = linesText (lines a)) (evidence : List α) :
    renderedBytes (evidence.flatMap pieces) = linesText (evidence.flatMap lines) := by
  induction evidence with
  | nil => rfl
  | cons a rest ih =>
      rw [List.flatMap_cons, List.flatMap_cons, renderedBytes_append, linesText_append, h, ih]

/-- The passthrough text is these lines. -/
theorem passthroughPieces_text (ledger : EventLedger) (resultId : ResultId)
    (evidence : List PassthroughEvidenceV1) :
    renderedBytes (passthroughPieces ledger resultId evidence) =
      linesText (passthroughLines ledger resultId evidence) := by
  simp only [passthroughPieces, passthroughLines, renderedBytes_append, linesText_append,
    nonePieces_text, flatMap_text passthroughItemPieces_text, coveragePieces_text]
  rw [headerPieces_text ledger resultId "PASSTHROUGH" rfl rfl]

/-- The compiled text is these lines. -/
theorem compiledPieces_text (ledger : EventLedger) (resultId : ResultId)
    (evidence : List CompiledEvidencePacketV1) (counts : PresentationCounts) :
    renderedBytes (compiledPieces ledger resultId evidence counts) =
      linesText (compiledLines ledger resultId evidence counts) := by
  simp only [compiledPieces, compiledLines, compiledHeaderPieces, renderedBytes_append,
    linesText_append, nonePieces_text, flatMap_text compiledPacketPieces_text,
    coveragePieces_text]
  rw [headerPieces_text ledger resultId "COMPILED" rfl rfl]

/-! ## Every line is printable -/

/-- A text of printable ASCII. -/
def Printable (text : List UInt8) : Prop := ∀ b ∈ text, isPrintable b = true

instance (text : List UInt8) : Decidable (Printable text) :=
  List.decidableBAll (fun b => isPrintable b = true) text

theorem printable_append {xs ys : List UInt8} (hx : Printable xs) (hy : Printable ys) :
    Printable (xs ++ ys) := by
  intro b hb
  rcases List.mem_append.mp hb with hb | hb
  · exact hx b hb
  · exact hy b hb

theorem printable_flatMap {α : Type} {f : α → List UInt8} {xs : List α}
    (h : ∀ a ∈ xs, Printable (f a)) : Printable (xs.flatMap f) := by
  intro b hb
  obtain ⟨a, ha, hb⟩ := List.mem_flatMap.mp hb
  exact h a ha b hb

theorem printable_escape (bytes : List UInt8) : Printable (escapeEvidenceBytes bytes) :=
  printable_flatMap fun b _ c hc => by
    obtain ⟨hlow, hhigh⟩ := escapedByte_ascii b c hc
    simp [isPrintable, hlow, hhigh]

/-- The bytes of a text are those of its characters. -/
theorem asciiBytes_eq (s : String) :
    asciiBytes s = s.toList.flatMap String.utf8EncodeChar := by
  rw [asciiBytes, ← String.utf8Encode_toList, List.utf8Encode, List.toList_data_toByteArray]

theorem printable_decimal (n : Nat) : Printable (decimal n) := by
  intro b hb
  rw [decimal, asciiBytes_eq, Nat.toString_eq_repr, Nat.toList_repr] at hb
  obtain ⟨c, hc, hb⟩ := List.mem_flatMap.mp hb
  have hdigit := Char.isDigit_iff_toNat.mp (Nat.isDigit_of_mem_toDigits (by omega) (by omega) hc)
  have hlow : (48 : Nat) ≤ c.val.toNat := hdigit.1
  have hhigh : c.val.toNat ≤ 57 := hdigit.2
  -- a digit is one byte in UTF-8
  have hone : b = UInt8.ofNat c.val.toNat := by
    rw [String.utf8EncodeChar, if_pos (by omega)] at hb
    exact List.mem_singleton.mp hb
  have hmod : c.val.toNat % 2 ^ 8 = c.val.toNat := by omega
  simp only [hone, isPrintable, Bool.and_eq_true, decide_eq_true_eq, UInt8.le_iff_toNat_le,
    UInt8.toNat_ofNat', hmod]
  have h32 : (32 : UInt8).toNat = 32 := rfl
  have h126 : (126 : UInt8).toNat = 126 := rfl
  omega

theorem printable_commaSeparated {codes : List String}
    (h : ∀ code ∈ codes, Printable (asciiBytes code)) :
    Printable (renderedBytes (commaSeparated codes)) := by
  induction codes with
  | nil => exact fun b hb => by cases hb
  | cons code rest ih =>
      have hcode := h code (List.mem_cons_self ..)
      have hrest := ih fun later hlater => h later (List.mem_cons_of_mem _ hlater)
      cases rest with
      | nil =>
          rw [commaSeparated, renderedBytes_str, renderedBytes_nil, List.append_nil]
          exact hcode
      | cons next rest =>
          rw [commaSeparated, renderedBytes_str, renderedBytes_str]
          · exact printable_append hcode (printable_append (by decide) hrest)
          · exact List.cons_ne_nil _ _

theorem printable_canonicalToken (resultId : ResultId) : Printable resultId.canonicalToken := by
  refine printable_append (by decide) (printable_flatMap fun byte _ => ?_)
  refine forall_byte (P := fun byte =>
    Printable [hexDigit (byte >>> 4), hexDigit (byte &&& 15)]) ?_ byte
  decide +kernel

theorem printable_exactness (basis : ExactnessBasis) : Printable (asciiBytes basis.code) := by
  cases basis with
  | sourceExact => decide
  | postPolicy policyDigest receiptId =>
      show Printable (asciiBytes "post_policy")
      decide

theorem printable_stream (stream : SourceStream) : Printable (asciiBytes stream.code) := by
  cases stream with
  | otherVersioned version code =>
      show Printable (asciiBytes "other_versioned")
      decide
  | _ => decide

theorem printable_relation (relation : ExpansionRelationV1) :
    Printable (asciiBytes relation.code) := by
  cases relation <;> decide

theorem printable_role (kind : ProductionFacetKindV1) : Printable (asciiBytes kind.code) := by
  cases kind <;> decide

theorem printable_forcing (constraint : SelectionConstraintV1) :
    Printable (asciiBytes constraint.code) := by
  cases constraint with
  | mandatoryValidatedIdentifier facetId =>
      show Printable (asciiBytes "mandatory_validated_identifier")
      decide
  | _ => decide

theorem printable_proof (proof : CompletenessProof) : Printable (asciiBytes proof.code) := by
  cases proof with
  | otherVersioned version code =>
      show Printable (asciiBytes "other_versioned")
      decide
  | _ => decide

theorem printable_partialReason (reason : FetchPartialReason) :
    Printable (asciiBytes reason.code) := by
  cases reason with
  | otherVersioned version code =>
      show Printable (asciiBytes "other_versioned")
      decide
  | _ => decide

theorem printable_unknownReason (reason : FetchUnknownReason) :
    Printable (asciiBytes reason.code) := by
  cases reason <;> decide

theorem printable_acquisition (completeness : FetchCompleteness) :
    Printable (renderedBytes (acquisitionPieces completeness)) := by
  cases completeness with
  | complete proof =>
      exact printable_append (by decide) (printable_append (printable_proof proof) (by decide))
  | partialFetch reasons continuation =>
      simp only [acquisitionPieces, renderedBytes_append]
      refine printable_append (printable_append (by decide) ?_) (by decide)
      refine printable_commaSeparated fun code hcode => ?_
      obtain ⟨reason, -, rfl⟩ := List.mem_map.mp hcode
      exact printable_partialReason reason
  | unknown reason =>
      exact printable_append (by decide)
        (printable_append (printable_unknownReason reason) (by decide))

/-! ## The vocabulary -/

def briefHeadings : List String :=
  ["STATUS", "  untrusted_data: true", "", "SCOPE", "EVIDENCE", "  (none)", "COVERAGE",
    "    data_encoding: ascii_byte_escape_v1", "      data_encoding: ascii_byte_escape_v1"]

/-- Labels outside the evidence section. -/
def frameLabels : List String :=
  ["  result: ", "  acquisition: ", "  acknowledged_records: ", "  persisted_events: ",
    "  policy_omitted_records: ", "  shown_verbatim: ", "  pattern_represented: ",
    "  retained_raw: ", "  source_exact_records: ", "  post_policy_records: "]

/-- Labels of one packet, before its events. -/
def packetLabels : List String :=
  ["  [E", "    expand: E", "    forcing: ", "    marginal_gain_numerator: ",
    "    composable_token_upper_bound: ", "    roles: ", "    event_count: ", "    event_"]

/-- Labels of one shown event. -/
def eventLabels : List String :=
  ["    exactness: ", "    stream: ", "    data: ", "      exactness: ", "      stream: ",
    "      data: "]

/-- Labels whose values say what is shown and in which way. -/
def shownLabels : List String := "  selection: " :: eventLabels

/-- A line with a known heading or label, and a printable value. -/
inductive BriefLine : Line UInt8 → Prop
  | heading {text : String} (known : text ∈ briefHeadings) : BriefLine (headingLine text)
  | field {label : String} {value : List UInt8}
      (known : label ∈ frameLabels ++ packetLabels ++ shownLabels)
      (printable : Printable value) : BriefLine (labelledLine label value)

theorem BriefLine.printable {line : Line UInt8} (h : BriefLine line) :
    Printable line.toList := by
  cases h with
  | heading known =>
      have hall : ∀ text ∈ briefHeadings, Printable (asciiBytes text) := by decide +kernel
      exact hall _ known
  | field known printable =>
      have hall : ∀ label ∈ frameLabels ++ packetLabels ++ shownLabels,
          Printable (asciiBytes label) := by decide +kernel
      exact printable_append (hall _ known) printable

/-- No other line can be taken for one that says what is shown. -/
theorem BriefLine.distinct {line : Line UInt8} (h : BriefLine line) {label : String}
    (hlabel : label ∈ shownLabels) : line.Distinct (asciiBytes label) := by
  cases h with
  | heading known =>
      have hall : ∀ label ∈ shownLabels, ∀ text ∈ briefHeadings,
          ¬ asciiBytes label <+: asciiBytes text := by decide +kernel
      exact hall label hlabel _ known
  | field known printable =>
      have hall : ∀ label ∈ shownLabels, ∀ l ∈ frameLabels ++ packetLabels ++ shownLabels,
          asciiBytes l = asciiBytes label ∨ (¬ asciiBytes label <+: asciiBytes l ∧
            ¬ asciiBytes l <+: asciiBytes label) := by decide +kernel
      exact hall label hlabel _ known

theorem headerLines_brief (ledger : EventLedger) (resultId : ResultId) {selection : String}
    (hselection : Printable (asciiBytes selection)) :
    ∀ line ∈ headerLines ledger resultId selection, BriefLine line := by
  simp only [headerLines, List.forall_mem_cons, List.not_mem_nil, false_implies, implies_true,
    and_true]
  exact ⟨.heading (by decide), .field (by decide) (printable_canonicalToken resultId),
    .heading (by decide), .field (by decide) (printable_acquisition _),
    .field (by decide) hselection, .heading (by decide), .heading (by decide),
    .field (by decide) (printable_decimal _), .field (by decide) (printable_decimal _),
    .field (by decide) (printable_decimal _), .heading (by decide), .heading (by decide)⟩

theorem noneLines_brief {α : Type} (evidence : List α) :
    ∀ line ∈ noneLines evidence, BriefLine line := by
  intro line hline
  rw [noneLines] at hline
  split at hline
  · rw [List.mem_singleton.mp hline]
    exact .heading (by decide)
  · cases hline

theorem coverageLines_brief (ledger : EventLedger) (counts : PresentationCounts) :
    ∀ line ∈ coverageLines ledger counts, BriefLine line := by
  simp only [coverageLines, List.forall_mem_cons, List.not_mem_nil, false_implies,
    implies_true, and_true]
  exact ⟨.heading (by decide), .heading (by decide),
    .field (by decide) (printable_decimal _), .field (by decide) (printable_decimal _),
    .field (by decide) (printable_decimal _), .field (by decide) (printable_decimal _),
    .field (by decide) (printable_decimal _), .field (by decide) (printable_decimal _)⟩

theorem passthroughItemLines_brief (item : PassthroughEvidenceV1) :
    ∀ line ∈ passthroughItemLines item, BriefLine line := by
  have hrelations : Printable (renderedBytes (commaSeparated
      (item.reference.allowedRelations.map ExpansionRelationV1.code))) := by
    refine printable_commaSeparated fun code hcode => ?_
    obtain ⟨relation, -, rfl⟩ := List.mem_map.mp hcode
    exact printable_relation relation
  simp only [passthroughItemLines, List.forall_mem_cons, List.not_mem_nil, false_implies,
    implies_true, and_true]
  exact ⟨.field (by decide) (printable_append (printable_decimal _) (by decide)),
    .field (by decide) (printable_append (printable_append (printable_decimal _) (by decide))
      hrelations),
    .field (by decide) (printable_exactness _), .field (by decide) (printable_stream _),
    .heading (by decide), .field (by decide) (printable_escape _)⟩

theorem compiledEventsLines_brief (events : List CompiledEventEvidenceV1) :
    ∀ eventIndex : Nat, ∀ line ∈ compiledEventsLines eventIndex
      (events.map CompiledEventEvidenceV1.render), BriefLine line := by
  induction events with
  | nil => exact fun _ _ hline => by cases hline
  | cons event rest ih =>
      intro eventIndex
      rw [List.map_cons, compiledEventsLines, List.forall_mem_append]
      refine ⟨?_, ih (eventIndex + 1)⟩
      simp only [compiledEventLines, List.forall_mem_cons, List.not_mem_nil, false_implies,
        implies_true, and_true]
      exact ⟨.field (by decide) (printable_append (printable_decimal _) (by decide)),
        .field (by decide) (printable_exactness _), .field (by decide) (printable_stream _),
        .heading (by decide), .field (by decide) (printable_escape _)⟩

theorem compiledPacketLines_brief (packet : CompiledEvidencePacketV1) :
    ∀ line ∈ compiledPacketLines packet, BriefLine line := by
  have hroles : Printable (renderedBytes (commaSeparated
      (packet.facetKinds.map ProductionFacetKindV1.code))) := by
    refine printable_commaSeparated fun code hcode => ?_
    obtain ⟨kind, -, rfl⟩ := List.mem_map.mp hcode
    exact printable_role kind
  rw [compiledPacketLines, List.forall_mem_append]
  refine ⟨?_, compiledEventsLines_brief packet.events 0⟩
  simp only [List.forall_mem_cons, List.not_mem_nil, false_implies, implies_true, and_true]
  exact ⟨.field (by decide) (printable_append (printable_decimal _) (by decide)),
    .field (by decide) (printable_append (printable_decimal _) (by decide)),
    .field (by decide) (printable_forcing _), .field (by decide) (printable_decimal _),
    .field (by decide) (printable_decimal _), .field (by decide) hroles,
    .field (by decide) (printable_decimal _)⟩

theorem passthroughLines_brief (ledger : EventLedger) (resultId : ResultId)
    (evidence : List PassthroughEvidenceV1) :
    ∀ line ∈ passthroughLines ledger resultId evidence, BriefLine line := by
  simp only [passthroughLines, List.forall_mem_append]
  refine ⟨⟨⟨headerLines_brief ledger resultId (by decide), noneLines_brief evidence⟩, ?_⟩,
    coverageLines_brief ledger _⟩
  intro line hline
  obtain ⟨item, -, hline⟩ := List.mem_flatMap.mp hline
  exact passthroughItemLines_brief item line hline

theorem compiledLines_brief (ledger : EventLedger) (resultId : ResultId)
    (evidence : List CompiledEvidencePacketV1) (counts : PresentationCounts) :
    ∀ line ∈ compiledLines ledger resultId evidence counts, BriefLine line := by
  simp only [compiledLines, List.forall_mem_append]
  refine ⟨⟨⟨headerLines_brief ledger resultId (by decide), noneLines_brief evidence⟩, ?_⟩,
    coverageLines_brief ledger counts⟩
  intro line hline
  obtain ⟨packet, -, hline⟩ := List.mem_flatMap.mp hline
  exact compiledPacketLines_brief packet line hline

end Evidentrail
