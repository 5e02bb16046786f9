import Mathlib.Data.List.Infix
import FlowDoc.Proofs.Text.Parts
import FlowDoc.Proofs.Text.Returns
import FlowDoc.Script.Record

/-!
# Records and marker lines

Every record ends with a marker line. Tabs are left out before the marker is looked for, so a line
of the script is a marker line when it holds the marker once its tabs are left out; the numbers of
the lines are those of the script. Nothing else of the script is lost and nothing is read twice: it
is put together again from its records, the texts after their markers and what is left over.

## Main definitions

* `markerLines`: the numbers of the marker lines
* `linesOf`, `restLines`: the lines of a script, and those after its last marker line
* `Record.IsCutFrom`: the lines that a record was cut from
* `Span.Tile`: spans of whole lines that follow each other without gap

## Main results

* `exists_marker_line`: the last line of a record is a marker line of the script
* `length_records_le`: there are no more records than characters
* `leftover_ofScript`: what is left over
* `ofScript_tiles`: the records of a script and what is left over, put together again
-/

namespace FlowDoc

/-- Spans of whole lines that follow each other without gap from the given line on. -/
def Span.Tile : Nat → List Span → Prop
  | _, [] => True
  | first, s :: spans =>
    s.start = ⟨first, 1⟩ ∧ first ≤ s.stop.line ∧ s.stop.col = 1 ∧ Span.Tile (s.stop.line + 1) spans

namespace Script

/-- A record was cut from a text: its body from what stands before a marker, and its label from what
follows the marker on the same line. No marker stands earlier. -/
def Record.IsCutFrom (r : Record) (text : List Char) : Prop :=
  ∃ before label, text = before ++ marker ++ label ∧ r.body.toList = before ++ ['\n'] ∧
    r.label.toList = Text.trim label ∧ '\n' ∉ label ∧ ¬ marker <:+: r.body.toList

namespace Records

/-- The marker line of a record among the lines that are cut, the first of which has number
`line`. -/
theorem exists_marker_line_ofLines {first line : Nat} {body : List Char}
    {texts : List (List Char)} (h : first ≤ line) {r : Record}
    (hr : r ∈ (ofLines first line body texts).records) :
    ∃ k text, texts[k]? = some text ∧ marker <:+: text ∧ r.span.stop.line = line + k := by
  induction texts generalizing first line body with
  | nil => simp [ofLines] at hr
  | cons text texts ih =>
    rw [ofLines] at hr
    split at hr
    case h_1 before label hcut =>
      rcases List.mem_cons.mp hr with rfl | hr
      · refine ⟨0, text, rfl, Text.cut_ne_none_iff.mp (by simp [hcut]), ?_⟩
        exact Nat.max_eq_left h
      · obtain ⟨k, text', htext, hmark, hline⟩ := ih (Nat.le_refl _) hr
        exact ⟨k + 1, text', htext, hmark, by omega⟩
    case h_2 =>
      obtain ⟨k, text', htext, hmark, hline⟩ := ih (Nat.le_succ_of_le h) hr
      exact ⟨k + 1, text', htext, hmark, by omega⟩

/-- **The last line of a record is a marker line**: it holds the marker once tabs are left out. -/
theorem exists_marker_line {script : String} {r : Record} (hr : r ∈ (ofScript script).records) :
    1 ≤ r.span.stop.line ∧
      ∃ text, (Text.lines script.toList)[r.span.stop.line - 1]? = some text ∧
        marker <:+: text.filter (· != '\t') := by
  obtain ⟨k, text, htext, hmark, hline⟩ := exists_marker_line_ofLines (Nat.le_refl 1) hr
  -- The lines without tabs are those of the script, each without its tabs.
  rw [Text.lines_filter (by decide), List.getElem?_map] at htext
  obtain ⟨raw, hraw, rfl⟩ := Option.map_eq_some_iff.mp htext
  refine ⟨by omega, raw, ?_, hmark⟩
  rwa [hline, Nat.add_sub_cancel_left]

/-- Every record takes at least the marker from its last line. -/
theorem length_records_ofLines (first line : Nat) (body : List Char) (texts : List (List Char)) :
    (ofLines first line body texts).records.length ≤ texts.flatten.length := by
  induction texts generalizing first line body with
  | nil => simp [ofLines]
  | cons text texts ih =>
    rw [ofLines, List.flatten_cons, List.length_append]
    split
    case h_1 before label hcut =>
      have hmarker : 1 ≤ text.length := by
        rw [Text.append_eq_of_cut hcut, List.length_append, List.length_append]
        simp only [marker, List.length_cons, List.length_nil]
        omega
      have hlater := ih (line + 1) (line + 1) []
      simp only [List.length_cons]
      omega
    case h_2 => exact Nat.le_trans (ih _ _ _) (Nat.le_add_left _ _)

theorem length_records_le (script : String) :
    (ofScript script).records.length ≤ script.length := by
  have hlines := length_records_ofLines 1 1 [] (Text.lines (script.toList.filter (· != '\t')))
  rw [Text.flatten_lines] at hlines
  have hfeeds := List.length_filter_le (· != '\n') (script.toList.filter (· != '\t'))
  have htabs := List.length_filter_le (· != '\t') script.toList
  rw [← String.length_toList]
  exact hlines.trans (hfeeds.trans htabs)

/-! ## Marker lines -/

/-- The numbers of the marker lines among lines of which the first has number `first`. -/
def markerLines (first : Nat) (texts : List (List Char)) : List Nat :=
  ((texts.zipIdx first).filter fun x => marker <:+: x.1).map (·.2)

/-- The lines after the last marker line, or all lines where there is none. -/
def linesAfter (texts : List (List Char)) : List (List Char) :=
  texts.rtakeWhile fun text => ¬ marker <:+: text

section MarkerLines

variable {text : List Char} {texts : List (List Char)}

theorem markerLines_cons (first : Nat) (text : List Char) (texts : List (List Char)) :
    markerLines first (text :: texts) =
      if marker <:+: text then first :: markerLines (first + 1) texts
      else markerLines (first + 1) texts := by
  rw [markerLines, List.zipIdx_cons, List.filter_cons]
  split_ifs with h h' h'
  · rfl
  · exact absurd (of_decide_eq_true h) h'
  · exact absurd (decide_eq_true h') h
  · rfl

theorem markerLines_append (first : Nat) (texts texts' : List (List Char)) :
    markerLines first (texts ++ texts') =
      markerLines first texts ++ markerLines (first + texts.length) texts' := by
  rw [markerLines, List.zipIdx_append, List.filter_append, List.map_append]
  rfl

theorem markerLines_concat (first : Nat) (texts : List (List Char)) (text : List Char) :
    markerLines first (texts ++ [text]) =
      markerLines first texts ++ if marker <:+: text then [first + texts.length] else [] := by
  rw [markerLines_append, markerLines_cons]
  rfl

theorem linesAfter_concat (texts : List (List Char)) (text : List Char) :
    linesAfter (texts ++ [text]) =
      if marker <:+: text then [] else linesAfter texts ++ [text] := by
  rw [linesAfter, List.rtakeWhile_concat, ← linesAfter]
  split_ifs with h h' h'
  · exact absurd h' (of_decide_eq_true h)
  · rfl
  · rfl
  · exact absurd (decide_eq_true h') h

theorem linesAfter_of_no_marker (h : ∀ text ∈ texts, ¬ marker <:+: text) :
    linesAfter texts = texts :=
  List.rtakeWhile_eq_self_iff.mpr fun text htext => decide_eq_true (h text htext)

/-- Only what follows a marker line can come after the last one. -/
theorem linesAfter_append_cons (hmark : marker <:+: text) (before : List (List Char)) :
    linesAfter (before ++ text :: texts) = linesAfter texts := by
  induction texts using List.reverseRecOn with
  | nil => rw [linesAfter_concat, if_pos hmark, linesAfter, List.rtakeWhile_nil]
  | append_singleton texts last ih =>
    rw [← List.cons_append, ← List.append_assoc, linesAfter_concat, linesAfter_concat, ih]

/-- The lines up to the last marker line and those after it are all lines. -/
theorem lastMarker_add_length (texts : List (List Char)) :
    (markerLines 1 texts).getLast?.getD 0 + (linesAfter texts).length = texts.length := by
  induction texts using List.reverseRecOn with
  | nil => rfl
  | append_singleton texts text ih =>
    rw [markerLines_concat, linesAfter_concat, List.length_append, List.length_singleton]
    split_ifs
    · rw [List.getLast?_concat, Option.getD_some, List.length_nil]
      omega
    · rw [List.append_nil, List.length_append, List.length_singleton]
      omega

theorem drop_lastMarker (texts : List (List Char)) :
    texts.drop ((markerLines 1 texts).getLast?.getD 0) = linesAfter texts := by
  obtain ⟨before, hbefore⟩ : linesAfter texts <:+ texts := List.rtakeWhile_suffix _ _
  have hlength := lastMarker_add_length texts
  have hsplit := congrArg List.length hbefore
  rw [List.length_append] at hsplit
  have hlast : (markerLines 1 texts).getLast?.getD 0 = before.length := by omega
  rw [hlast]
  nth_rewrite 1 [← hbefore]
  exact List.drop_left

end MarkerLines

/-! ## The lines of records -/

/-- Lines as a text, each ended by a line feed. -/
def feedEnded (texts : List (List Char)) : List Char :=
  texts.flatMap (· ++ ['\n'])

section FeedEnded

variable {texts texts' : List (List Char)}

@[simp] theorem feedEnded_append (texts texts' : List (List Char)) :
    feedEnded (texts ++ texts') = feedEnded texts ++ feedEnded texts' :=
  List.flatMap_append

@[simp] theorem feedEnded_cons (text : List Char) (texts : List (List Char)) :
    feedEnded (text :: texts) = text ++ '\n' :: feedEnded texts := by
  rw [feedEnded, List.flatMap_cons, ← feedEnded, List.append_assoc, List.singleton_append]

theorem intercalate_append_feed (h : texts ≠ []) :
    ['\n'].intercalate texts ++ ['\n'] = feedEnded texts := by
  induction texts with
  | nil => exact absurd rfl h
  | cons text texts ih =>
    cases texts with
    | nil => rw [List.intercalate_singleton, feedEnded_cons, feedEnded, List.flatMap_nil]
    | cons text' texts =>
      rw [List.intercalate_cons_cons, feedEnded_cons, List.append_assoc,
        ih (List.cons_ne_nil text' texts), List.append_assoc, List.singleton_append]

/-- Lines that are the same text when each is ended are the same text when they are separated. -/
theorem intercalate_eq_of_feedEnded_eq (hne : texts ≠ []) (h : feedEnded texts' = feedEnded texts) :
    ['\n'].intercalate texts' = ['\n'].intercalate texts := by
  have hne' : texts' ≠ [] := by
    rintro rfl
    obtain ⟨text, rest, rfl⟩ := List.exists_cons_of_ne_nil hne
    rw [feedEnded_cons] at h
    simp [feedEnded] at h
  rw [← intercalate_append_feed hne, ← intercalate_append_feed hne'] at h
  exact List.append_cancel_right h

/-- The line feed at the end is trimmed. -/
theorem trim_feedEnded (texts : List (List Char)) :
    Text.trim (feedEnded texts) = Text.trim (['\n'].intercalate texts) := by
  by_cases h : texts = []
  · rw [h]
    rfl
  · rw [← intercalate_append_feed h, Text.trim_append_blank (by decide)]

/-- A marker holds no line feed, so it stands in one of the lines. -/
theorem not_marker_feedEnded_append {rest : List Char}
    (htexts : ∀ text ∈ texts, ¬ marker <:+: text) (hrest : ¬ marker <:+: rest) :
    ¬ marker <:+: feedEnded texts ++ rest := by
  induction texts with
  | nil => exact hrest
  | cons text texts ih =>
    obtain ⟨htext, htexts⟩ := List.forall_mem_cons.mp htexts
    rw [feedEnded_cons, List.append_assoc, List.cons_append]
    intro h
    rcases Text.infix_append_cons (by decide) (by decide) h with h | h
    · exact htext h
    · exact ih htexts h

end FeedEnded

section OfLines

variable {first line : Nat} {body : List Char} {texts pending : List (List Char)}

/-- The last lines of the records are the marker lines. -/
theorem map_stop_ofLines (h : first ≤ line) :
    (ofLines first line body texts).records.map (·.span.stop.line) = markerLines line texts := by
  induction texts generalizing first line body with
  | nil => rfl
  | cons text texts ih =>
    rw [ofLines, markerLines_cons]
    split
    case h_1 before label hcut =>
      rw [if_pos (Text.cut_ne_none_iff.mp (by simp [hcut])), List.map_cons, ih (Nat.le_refl _)]
      exact congrArg (· :: _) (Nat.max_eq_left h)
    case h_2 hcut =>
      rw [if_neg fun hmark => Text.cut_ne_none_iff.mpr hmark hcut]
      exact ih (Nat.le_succ_of_le h)

/-- A record starts on the line after the one before it. -/
theorem tile_ofLines (h : first ≤ line) :
    Span.Tile first ((ofLines first line body texts).records.map (·.span)) := by
  induction texts generalizing first line body with
  | nil => trivial
  | cons text texts ih =>
    rw [ofLines]
    split
    case h_1 before label hcut =>
      have hstop : (Span.lines first line).stop.line = line := Nat.max_eq_left h
      refine ⟨rfl, Nat.le_max_right _ _, rfl, ?_⟩
      rw [hstop]
      exact ih (Nat.le_refl _)
    case h_2 => exact ih (Nat.le_succ_of_le h)

/-- **The lines are put together again** from what the records were cut from and the lines after the
last marker line. -/
theorem exists_isCutFrom_ofLines (hpending : ∀ text ∈ pending, ¬ marker <:+: text)
    (htexts : ∀ text ∈ texts, '\n' ∉ text) :
    ∃ sources,
      List.Forall₂ Record.IsCutFrom (ofLines first line (feedEnded pending) texts).records
        sources ∧
      feedEnded (sources ++ linesAfter (pending ++ texts)) = feedEnded (pending ++ texts) := by
  induction texts generalizing first line pending with
  | nil =>
    refine ⟨[], .nil, ?_⟩
    rw [List.append_nil, linesAfter_of_no_marker hpending]
    rfl
  | cons text texts ih =>
    obtain ⟨htext, htexts⟩ := List.forall_mem_cons.mp htexts
    rw [ofLines]
    split
    case h_1 before label hcut =>
      have hparts := Text.append_eq_of_cut hcut
      have hmark : marker <:+: text := ⟨before, label, hparts.symm⟩
      obtain ⟨sources, hsources, hjoined⟩ := @ih (line + 1) (line + 1) [] (by simp) htexts
      refine ⟨(feedEnded pending ++ text) :: sources, .cons ?_ hsources, ?_⟩
      · refine ⟨feedEnded pending ++ before, label, ?_, String.toList_ofList, String.toList_ofList,
          ?_, ?_⟩
        · rw [hparts]
          simp only [List.append_assoc]
        · exact fun hfeed => htext (by rw [hparts]; exact List.mem_append_right _ hfeed)
        · rw [String.toList_ofList, List.append_assoc]
          refine not_marker_feedEnded_append hpending fun hin => ?_
          rcases Text.infix_append_cons (by decide) (by decide) hin with hin | hin
          · exact Text.not_infix_of_cut (by decide) hcut hin
          · exact absurd (List.infix_nil.mp hin) (by decide)
      · rw [linesAfter_append_cons hmark, List.cons_append, feedEnded_cons]
        rw [List.nil_append] at hjoined
        rw [hjoined, feedEnded_append, feedEnded_cons, List.append_assoc]
    case h_2 hcut =>
      have hnone : ¬ marker <:+: text := fun hmark => Text.cut_ne_none_iff.mpr hmark hcut
      have hbody : feedEnded pending ++ text ++ ['\n'] = feedEnded (pending ++ [text]) := by
        rw [feedEnded_append, feedEnded_cons, List.append_assoc]
        rfl
      rw [hbody, List.append_cons pending text texts]
      refine ih ?_ htexts
      exact List.forall_mem_append.mpr ⟨hpending, by simpa using hnone⟩

theorem leftoverOf_congr {last : Nat} {body' : List Char} (h : Text.trim body = Text.trim body') :
    leftoverOf first last body = leftoverOf first last body' := by
  rw [leftoverOf, leftoverOf, h]

/-- What is left over are the lines after the last marker line. -/
theorem leftover_ofLines (hpending : ∀ text ∈ pending, ¬ marker <:+: text)
    (hline : line = first + pending.length) :
    (ofLines first line (feedEnded pending) texts).leftover =
      leftoverOf (line + texts.length - (linesAfter (pending ++ texts)).length)
        (line + texts.length - 1) (feedEnded (linesAfter (pending ++ texts))) := by
  induction texts generalizing first line pending with
  | nil =>
    rw [List.append_nil, linesAfter_of_no_marker hpending, ofLines, hline, List.length_nil,
      Nat.add_zero, Nat.add_sub_cancel]
  | cons text texts ih =>
    have hlength : line + (text :: texts).length = line + 1 + texts.length := by
      rw [List.length_cons]
      omega
    rw [ofLines, hlength]
    split
    case h_1 before label hcut =>
      have hmark : marker <:+: text := ⟨before, label, (Text.append_eq_of_cut hcut).symm⟩
      rw [linesAfter_append_cons hmark]
      exact @ih (line + 1) (line + 1) [] (by simp) rfl
    case h_2 hcut =>
      have hnone : ¬ marker <:+: text := fun hmark => Text.cut_ne_none_iff.mpr hmark hcut
      have hbody : feedEnded pending ++ text ++ ['\n'] = feedEnded (pending ++ [text]) := by
        rw [feedEnded_append, feedEnded_cons, List.append_assoc]
        rfl
      rw [hbody, List.append_cons pending text texts]
      refine ih ?_ ?_
      · exact List.forall_mem_append.mpr ⟨hpending, by simpa using hnone⟩
      · rw [List.length_append, List.length_singleton]
        omega

end OfLines

/-! ## Whole scripts -/

theorem leftoverOf_eq {first last : Nat} {body : List Char}
    (h : Text.blank body = false → first ≤ last) :
    leftoverOf first last body =
      if Text.blank body then none
      else some ⟨.trailingText (String.ofList (Text.trim body)), ⟨⟨first, 1⟩, ⟨last, 1⟩⟩⟩ := by
  have hblank : Text.blank body = true ↔ Text.trim body = [] := by
    rw [Text.blank, List.all_eq_true, Text.trim_eq_nil_iff]
  rw [leftoverOf]
  cases htrim : Text.trim body with
  | nil => rw [if_pos (hblank.mpr htrim)]
  | cons c cs =>
    have hnot : ¬ Text.blank body = true := by simp [hblank, htrim]
    rw [if_neg hnot, Span.lines, Nat.max_eq_left (h (by simpa using hnot))]

/-- The lines of a script, without its tabs. -/
def linesOf (script : String) : List (List Char) :=
  Text.lines (script.toList.filter (· != '\t'))

/-- The number of the last marker line of a script, zero where there is none. -/
def lastMarker (script : String) : Nat :=
  (markerLines 1 (linesOf script)).getLast?.getD 0

/-- The lines of a script from the one after the last marker line on. -/
def restLines (script : String) : List (List Char) :=
  (linesOf script).drop (lastMarker script)

theorem restLines_eq (script : String) : restLines script = linesAfter (linesOf script) :=
  drop_lastMarker _

/-- The lines after the last marker line are what is left over, unless they are blank. -/
theorem leftover_ofScript (script : String) :
    (ofScript script).leftover =
      if Text.blank (['\n'].intercalate (restLines script)) then none
      else some ⟨.trailingText (String.ofList (Text.trim (['\n'].intercalate (restLines script)))),
        ⟨⟨lastMarker script + 1, 1⟩, ⟨(linesOf script).length, 1⟩⟩⟩ := by
  have hlength : lastMarker script + (linesAfter (linesOf script)).length =
      (linesOf script).length := lastMarker_add_length _
  have hleftover : (ofScript script).leftover = _ :=
    @leftover_ofLines 1 1 (linesOf script) [] (by simp) rfl
  have hfirst : 1 + (linesOf script).length - (linesAfter (linesOf script)).length =
      lastMarker script + 1 := by omega
  rw [hleftover, List.nil_append, hfirst, Nat.add_sub_cancel_left,
    leftoverOf_congr (trim_feedEnded _), ← restLines_eq]
  refine leftoverOf_eq fun hblank => ?_
  -- Where a text is left over a line is.
  by_contra hlast
  have hnone : restLines script = [] := List.drop_eq_nil_of_le (by omega)
  rw [hnone] at hblank
  cases hblank

/-- **Nothing of a script is lost and nothing is read twice.** With its tabs left out, a script has
a record for each marker line, in order, and is what the records were cut from, one below the other,
with the lines after the last marker line below them. The lines of the records follow each other
without gap from the first line on, each record ending with its marker line, and the lines after
them are reported unless they are blank. -/
theorem ofScript_tiles (script : String) :
    (∃ sources, List.Forall₂ Record.IsCutFrom (ofScript script).records sources ∧
      script.toList.filter (· != '\t') = ['\n'].intercalate (sources ++ restLines script)) ∧
    (ofScript script).records.map (·.span.stop.line) = markerLines 1 (linesOf script) ∧
    Span.Tile 1 ((ofScript script).records.map (·.span)) ∧
    (ofScript script).leftover =
      if Text.blank (['\n'].intercalate (restLines script)) then none
      else some ⟨.trailingText (String.ofList (Text.trim (['\n'].intercalate (restLines script)))),
        ⟨⟨lastMarker script + 1, 1⟩, ⟨(linesOf script).length, 1⟩⟩⟩ := by
  have hlines : ['\n'].intercalate (linesOf script) = script.toList.filter (· != '\t') :=
    List.intercalate_splitOn '\n'
  have hne : linesOf script ≠ [] := List.splitOn_ne_nil _ _
  refine ⟨?_, map_stop_ofLines (Nat.le_refl 1), tile_ofLines (Nat.le_refl 1),
    leftover_ofScript script⟩
  have hfeeds : ∀ text ∈ linesOf script, '\n' ∉ text := fun text htext hfeed =>
    (Text.mem_of_mem_lines htext hfeed).2 rfl
  obtain ⟨sources, hsources, hjoined⟩ :=
    @exists_isCutFrom_ofLines 1 1 (linesOf script) [] (by simp) hfeeds
  refine ⟨sources, hsources, ?_⟩
  rw [restLines_eq, ← hlines]
  exact (intercalate_eq_of_feedEnded_eq hne hjoined).symm

/-- The first marker of a line is the one that counts, also where half a marker stands before it. -/
example : (ofScript "a\n~>~> ~> x").records =
    [{ body := "a\n~>\n", label := "~> x", span := Span.lines 1 2 }] := by rfl

end Records

end Script

end FlowDoc
