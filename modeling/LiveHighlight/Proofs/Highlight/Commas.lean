import LiveHighlight.Proofs.Highlight.Advance

/-! The smallest parser that does something. It finds the commas of a text, and its query captures
each of them by some name. All that is assumed of parsers holds of it. -/

namespace LiveHighlight.Commas

open Utf8

/-- The offsets of the commas in a text that begins at an offset. -/
def offsets : Nat → List Char → List Nat
  | _, [] => []
  | o, c :: cs =>
    let rest := offsets (o + c.utf8Size) cs
    if c = ',' then o :: rest else rest

/-- Where an edit moves an offset to, if it does not replace what is there. -/
def moved (e : ByteEdit) (o : Nat) : Option Nat :=
  if o < e.start then some o
  else if o < e.oldEnd then none
  else some (o - e.oldEnd + e.newEnd)

def token (o : Nat) : QueryCapture := ⟨⟨o, o + 1⟩, 0, 0⟩

/-- A tree is where the commas are. Two trees differ where only one has a comma. -/
def engine : SyntaxEngine where
  Language := Unit
  Tree := List Nat
  Query := String
  parse _ text := offsets 0 text
  reshape tree e := tree.filterMap (moved e)
  difference old new :=
    ((old.filter (!new.contains ·)) ++ new.filter (!old.contains ·)).map fun o => ⟨o, o + 1⟩
  compile _ text := .ok text
  captureNames text := [String.ofList ((text.toList.dropWhile (· ≠ '@')).drop 1)]
  captures _ tree _ r := (tree.map token).filter (QueryCapture.meets r)
  exceeds _ _ _ _ _ := false

/-- The grammar whose query gives commas a name. -/
def grammar (name : String) : Grammar engine := ⟨"commas", some (), "\",\" @" ++ name⟩

/-- All captures of a text. -/
def found (_ : LoadedGrammar engine) (text : List Char) : List QueryCapture :=
  (offsets 0 text).map token

theorem mem_offsets {b o : Nat} {cs : List Char} (h : o ∈ offsets b cs) :
    ∃ n, o = b + n ∧ isBoundary cs n = true := by
  induction cs generalizing b with
  | nil => exact (List.not_mem_nil h).elim
  | cons c cs ih =>
    have hrest : o ∈ offsets (b + c.utf8Size) cs →
        ∃ n, o = b + n ∧ isBoundary (c :: cs) n = true := by
      intro h
      obtain ⟨n, rfl, hn⟩ := ih h
      refine ⟨c.utf8Size + n, by omega, ?_⟩
      rw [isBoundary_cons (Nat.le_add_right ..), Nat.add_sub_cancel_left]
      exact hn
    rw [offsets] at h
    split at h
    · rcases List.mem_cons.mp h with rfl | h
      · exact ⟨0, rfl, isBoundary_zero _⟩
      · exact hrest h
    · exact hrest h

theorem pairwise_offsets (b : Nat) (cs : List Char) : (offsets b cs).Pairwise (· < ·) := by
  induction cs generalizing b with
  | nil => exact .nil
  | cons c cs ih =>
    rw [offsets]
    split
    · refine List.pairwise_cons.mpr ⟨fun o ho => ?_, ih _⟩
      obtain ⟨n, rfl, -⟩ := mem_offsets ho
      have := c.utf8Size_pos
      omega
    · exact ih _

theorem nodup_offsets (cs : List Char) : (offsets 0 cs).Nodup :=
  (pairwise_offsets 0 cs).imp Nat.ne_of_lt

/-- A comma has the capture of the query, and no other byte has one. -/
theorem flat_eq (g : LoadedGrammar engine) (d : Document) (i : Nat) :
    g.flat found d i = if i ∈ offsets 0 d.chars then g.query.capture 0 else none := by
  cases hname : g.query.capture 0 with
  | none =>
    have hnone : (found g d.chars).filterMap g.query.raw = [] := by
      refine List.filterMap_eq_nil_iff.mpr fun c hc => ?_
      obtain ⟨o, -, rfl⟩ := List.mem_map.mp hc
      rw [CompiledQuery.raw, show (token o).index = 0 from rfl, hname]
      rfl
    rw [LoadedGrammar.flat, hnone, ite_self]
    simp [FoundCapture.innermost, FoundCapture.around, FoundCapture.dedup]
  | some name =>
    have hall : (found g d.chars).filterMap g.query.raw =
        (offsets 0 d.chars).map fun o => ⟨⟨o, o + 1⟩, name, 0⟩ := by
      rw [found, List.filterMap_map, ← List.filterMap_eq_map]
      congr 1
      funext o
      simp only [Function.comp, CompiledQuery.raw, show (token o).index = 0 from rfl, hname]
      rfl
    -- At most one comma is around a byte.
    have haround : ∀ o : Nat, (⟨o, o + 1⟩ : ByteRange).contains i = (o == i) := by
      intro o
      rw [Bool.eq_iff_iff, ByteRange.contains_iff, beq_iff_eq]
      simp only
      omega
    rw [LoadedGrammar.flat, hall, FoundCapture.innermost, FoundCapture.around, List.filter_map]
    simp only [Function.comp_def, haround, List.filter_beq, (nodup_offsets d.chars).count]
    split <;> simp [FoundCapture.dedup]

theorem mem_reshape {e : TextEdit} {length : Nat} (he : e.Sound length) {tree : List Nat}
    {i : Nat} : i ∈ tree.filterMap (moved e.bytes) ↔ ∃ j, e.origin i = some j ∧ j ∈ tree := by
  have := he.ordered
  have := he.grows
  simp only [List.mem_filterMap, moved, TextEdit.bytes]
  constructor
  · rintro ⟨j, hj, hmoved⟩
    refine ⟨j, TextEdit.origin_eq_some.mpr ?_, hj⟩
    split at hmoved
    · cases hmoved
      exact .inl ⟨by assumption, rfl⟩
    · split at hmoved
      · cases hmoved
      · cases hmoved
        exact .inr ⟨by omega, by omega, by omega⟩
  · rintro ⟨j, hij, hj⟩
    refine ⟨j, hj, ?_⟩
    rcases TextEdit.origin_eq_some.mp hij with ⟨hi, rfl⟩ | ⟨hstart, hi, rfl⟩
    · rw [if_pos hi]
    · rw [if_neg (by omega), if_neg (by omega)]
      simp only [Option.some.injEq]
      omega

/-- The commas of a text that edits leave, where they are after the edits. -/
def left (d : Document) (es : List TextEdit) : List Nat :=
  SyntaxEngine.reshapeAll (E := engine) (offsets 0 d.chars) es

theorem left_concat (d : Document) (es : List TextEdit) (e : TextEdit) :
    left d (es ++ [e]) = (left d es).filterMap (moved e.bytes) :=
  SyntaxEngine.reshapeAll_concat (E := engine) _ es e

/-- The captures of a text moved along edits are at the commas that the edits leave. -/
theorem spliceAll_flat (g : LoadedGrammar engine) {d₀ d : Document} {es : List TextEdit}
    (htrail : Document.Trail d₀ es d) (i : Nat) :
    TextEdit.spliceAll es none (g.flat found d₀) i =
      if i ∈ left d₀ es then g.query.capture 0 else none := by
  induction htrail generalizing i with
  | start => exact flat_eq g _ i
  | edit _ hedit hfits ih =>
    rw [TextEdit.spliceAll_concat, left_concat]
    simp only [mem_reshape (hedit.sound hfits), TextEdit.splice]
    cases TextEdit.origin _ i with
    | none => simp
    | some j => simp [ih]

theorem ordersDifferences : engine.OrdersDifferences := by
  intro old new r hr
  obtain ⟨o, -, rfl⟩ := List.mem_map.mp hr
  exact Nat.le_succ o

theorem alignsCaptures : engine.AlignsCaptures := by
  intro g text r _ c hc
  obtain ⟨o, ho, rfl⟩ := List.mem_map.mp (List.mem_filter.mp hc).1
  obtain ⟨n, rfl, hn⟩ := mem_offsets ho
  simpa [token] using hn

/-- Commas are captured one after the other, and none within another. -/
theorem sorted_tokens {offsets : List Nat} (h : offsets.Pairwise (· < ·)) :
    (offsets.map token).Pairwise fun a b => a.range.start ≤ b.range.start :=
  List.pairwise_map.mpr (h.imp Nat.le_of_lt)

theorem laminar_tokens (offsets : List Nat) :
    ∀ a ∈ offsets.map token, ∀ b ∈ offsets.map token, a.range.Laminar b.range := by
  intro a ha b hb
  obtain ⟨o, -, rfl⟩ := List.mem_map.mp ha
  obtain ⟨q, -, rfl⟩ := List.mem_map.mp hb
  simp only [ByteRange.Laminar, token]
  omega

theorem faithful : engine.Faithful found where
  ordersDifferences := ordersDifferences
  alignsCaptures := alignsCaptures
  sorted g text _ := sorted_tokens (pairwise_offsets 0 text)
  laminar g text _ := laminar_tokens (offsets 0 text)
  ranged g text r limit _ _ _ := rfl
  reported g d₀ es d _ htrail i _ hne := by
    rw [spliceAll_flat g htrail, flat_eq] at hne
    refine ⟨⟨i, i + 1⟩, List.mem_append_left _ (List.mem_map.mpr ⟨i, ?_, rfl⟩),
      ByteRange.contains_iff.mpr ⟨Nat.le_refl i, Nat.lt_succ_self i⟩⟩
    change i ∈ (left d₀ es).filter (!(offsets 0 d.chars).contains ·) ++
      (offsets 0 d.chars).filter (!(left d₀ es).contains ·)
    by_cases hnew : i ∈ offsets 0 d.chars <;> by_cases hold : i ∈ left d₀ es <;> simp_all

theorem reports : engine.Reports found where
  ordersDifferences := ordersDifferences
  alignsCaptures := alignsCaptures
  sorted := faithful.sorted
  reported _ _ _ _ _ := List.Sublist.refl _
  ranged _ _ _ _ _ _ _ := rfl

/-! ### Captures around each other -/

/-- A capture from an offset to the end of a text. -/
def onward (length o : Nat) : QueryCapture := ⟨⟨o, length⟩, 0, 0⟩

/-- The parser whose query captures each comma with all that follows it. -/
def nested : SyntaxEngine :=
  { engine with
    captures := fun _ (tree : List Nat) text r =>
      (tree.map (onward (byteLength text))).filter (QueryCapture.meets r) }

def foundNested (_ : LoadedGrammar nested) (text : List Char) : List QueryCapture :=
  (offsets 0 text).map (onward (byteLength text))

theorem nested_reports : nested.Reports foundNested where
  ordersDifferences := ordersDifferences
  alignsCaptures := by
    intro g text r _ c hc
    obtain ⟨o, ho, rfl⟩ := List.mem_map.mp (List.mem_filter.mp hc).1
    obtain ⟨n, rfl, hn⟩ := mem_offsets ho
    simpa [onward] using hn
  sorted g text _ := by
    refine List.pairwise_map.mpr ((pairwise_offsets 0 text).imp fun h => ?_)
    exact Nat.le_of_lt h
  reported _ _ _ _ _ := List.Sublist.refl _
  ranged _ _ _ _ _ _ _ := rfl

/-! ### Queries that do not compile -/

/-- The parser that refuses a query without a capture. -/
def strict : SyntaxEngine :=
  { engine with
    compile := fun _ (text : String) =>
      if text.toList.contains '@' then .ok text else .error "no capture" }

def strictGrammar (id query : String) : Grammar strict := ⟨id, some (), query⟩

/-! ### Runs -/

def pair : Document := .ofString "[1,2]"

/-- A text is highlighted, edited, and worked on while idle. -/
def pairSteps : List (Clock × Action engine) := [
  (.steady, .setLanguage (grammar "punctuation.delimiter")),
  (.steady, .edit ⟨1, 2⟩ "34"),
  (.steady, .idle)]

theorem pair_fits : (Host.opened {} (.plain "plain") pair).Fits pairSteps := by
  refine ⟨?_, ?_, ?_, (?_ : _ < _)⟩ <;> decide +kernel

/-- While the worker has two jobs to do, the older of which it skips. -/
def skippedSteps : List (Clock × Action engine) := [
  (.steady, .setLanguage (grammar "punctuation.delimiter")),
  (.steady, .edit ⟨1, 2⟩ "34"),
  (.steady, .work .skip),
  (.steady, .work .begin)]

/-- A clock by which every parse takes two microseconds. -/
def slow : Clock := ⟨fun _ => .ofMicros 2, fun _ _ => .zero⟩

/-- An edit whose parse is paused, and another one while highlighting is off. -/
def offSteps : List (Clock × Action engine) := [
  (.steady, .setLanguage (grammar "punctuation.delimiter")),
  (.steady, .setParseTimeout 1),
  (slow, .edit ⟨1, 2⟩ "34"),
  (.steady, .disable),
  (.steady, .edit ⟨0, 1⟩ "[[")]

theorem pair_fits_off : (Host.opened {} (.plain "plain") pair).Fits offSteps := by
  refine ⟨?_, ?_, ?_, ?_, ?_, (?_ : _ < _)⟩ <;> decide +kernel

/-- An edit whose parse is paused, and a later one whose parse is not. -/
def laterSteps : List (Clock × Action engine) := [
  (.steady, .setLanguage (grammar "punctuation.delimiter")),
  (.steady, .setParseTimeout 1),
  (slow, .edit ⟨1, 2⟩ "34"),
  (.steady, .edit ⟨0, 0⟩ " ")]

def rows : Document := ⟨(List.replicate 64 ['1', ',']).flatten ++ ['\n', '2']⟩

/-- While the end of the first row has yet to be queried, the second row is edited. -/
def rowSteps : List (Clock × Action engine) := [
  (.steady, .setLanguage (grammar "unknown")),
  (.steady, .edit ⟨129, 130⟩ "3"),
  (.steady, .idle)]

theorem rows_fit :
    (Host.opened { queryBudgetMicros := 0 } (.plain "plain") rows).Fits rowSteps := by
  refine ⟨?_, ?_, ?_, (?_ : _ < _)⟩ <;> decide +kernel

def brink : Document := ⟨(List.replicate 63 ['1', ',']).flatten ++ ['\n', ',']⟩

/-- The query stops where the second row begins. -/
def brinkSteps : List (Clock × Action engine) := [(.steady, .setLanguage (grammar "unknown"))]

theorem brink_fits :
    (Host.opened { queryBudgetMicros := 0 } (.plain "plain") brink).Fits brinkSteps := by
  refine ⟨?_, (?_ : _ < _)⟩ <;> decide +kernel

/-- While the end of the first row has yet to be queried and the worker is at the rows, characters
of two bytes are inserted into them. -/
def wideSteps : List (Clock × Action engine) := [
  (.steady, .setLanguage (grammar "unknown")),
  (.steady, .work .begin),
  (.steady, .work .finish),
  (.steady, .poll),
  (.steady, .edit ⟨0, 0⟩ "é"),
  (.steady, .work .begin),
  (.steady, .edit ⟨2, 2⟩ "é")]

theorem wide_fits :
    (Host.opened { queryBudgetMicros := 0, backgroundQueries := true } (.plain "plain") rows).Fits
      wideSteps := by
  refine ⟨?_, ?_, ?_, ?_, ?_, ?_, ?_, (?_ : _ < _)⟩ <;> decide +kernel

def banks : Document := ⟨List.replicate 70 ',' ++ '\n' :: List.replicate 70 ','⟩

/-- While the end of the second row has yet to be queried, the first row is edited. The cursor is
further down than there are rows. -/
def bankSteps : List (Clock × Action engine) := [
  (.steady, .setLanguage (grammar "unknown")),
  (.steady, .idle),
  (.steady, .edit ⟨0, 0⟩ "1"),
  (.steady, .setCursors [⟨9, 0⟩])]

theorem banks_fit :
    (Host.opened { queryBudgetMicros := 0 } (.plain "plain") banks).Fits bankSteps := by
  refine ⟨?_, ?_, ?_, ?_, (?_ : _ < _)⟩ <;> decide +kernel

def long : Document := ⟨List.replicate 130 ','⟩

def longSteps : List (Clock × Action engine) := [(.steady, .setLanguage (grammar "unknown"))]

theorem long_fits :
    (Host.opened { queryBudgetMicros := 0 } (.plain "plain") long).Fits longSteps := by
  refine ⟨?_, (?_ : _ < _)⟩ <;> decide +kernel

/-- With as many captures around a byte as there are commas up to it. -/
def nestedSteps : List (Clock × Action nested) :=
  [(.steady, .setLanguage ⟨"commas", some (), "\",\" @unknown"⟩)]

theorem nested_fits :
    (Host.opened { queryBudgetMicros := 0 } (.plain "plain") long).Fits nestedSteps := by
  refine ⟨?_, (?_ : _ < _)⟩ <;> decide +kernel

/-- While the worker has a result to deliver, a parse is paused. -/
def busySteps : List (Clock × Action strict) := [
  (.steady, .setLanguage (strictGrammar "commas" "\",\" @punctuation.delimiter")),
  (.steady, .work .begin),
  (.steady, .setParseTimeout 1),
  (slow, .edit ⟨1, 2⟩ "34"),
  (.steady, .work .finish)]

/-- What a host may still do while highlighting is off. -/
def offDuty : List (Clock × Action strict) := [
  (.steady, .poll),
  (.steady, .edit ⟨0, 1⟩ "[["),
  (.steady, .setTheme (.plain "other")),
  (.steady, .setLanguage (strictGrammar "broken" "\",\"")),
  (.steady, .setCursors [⟨0, 1⟩]),
  (.steady, .disable),
  (.steady, .idle)]

end LiveHighlight.Commas
