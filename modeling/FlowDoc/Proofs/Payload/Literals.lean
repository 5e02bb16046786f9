import FlowDoc.Proofs.Payload.Fields
import FlowDoc.Proofs.Payload.Trimming

/-!
# Literal spans of the entries

A payload is divided at brackets and commas outside literal spans only, so its parts close the
literal spans that they open, and the keys and values that they stand for do so too. The colon of a
field is looked for without regard to literal spans, however. Where the only colon of a field stands
inside a literal span, the field is cut there.

## Main definitions

* `CutInLiteral`, `CutFrom`: an entry that comes of a colon inside a literal span
* `Legible`: an entry that the scanner can read

## Main results

* `fieldEntries_legible`: the entries of a field
* `exists_content`: the bag of a payload by its content
* `entries_literalClosed`: the entries of a payload close their literal spans, unless they are cut
* `scan_cutEntries`: entries that do not
-/

namespace FlowDoc.Payload

/-! ## Entries of a field -/

/-- The only colon of a text stands inside a literal span, and the entry is what stands before and
after it. -/
def CutInLiteral (text : List Char) (e : String × String) : Prop :=
  ∃ key value, (Text.trim text).splitOn ':' = [key, value] ∧ ¬ LiteralClosed key ∧
    e = (String.ofList (Text.trim key), String.ofList (Text.trim value))

theorem CutInLiteral.not_literalClosed {text : List Char} {e : String × String}
    (h : CutInLiteral text e) : ¬ LiteralClosed e.1.toList := by
  obtain ⟨key, value, -, hkey, rfl⟩ := h
  rwa [String.toList_ofList, ignoresEnds_literalClosed.trim]

theorem literalClosed_otherKey : LiteralClosed otherKey.toList := by decide

/-- An entry that the scanner can read: its key means nothing to it and its value closes the
brackets that it opens. -/
structure Legible (e : String × String) : Prop where
  key_ne_empty : e.1 ≠ ""
  key_trimmed : Text.trimmed e.1 = e.1
  key_flat : Flat e.1.toList
  value_trimmed : e.1 ≠ otherKey → Text.trimmed e.2 = e.2
  value_balanced : Balanced e.2.toList
  unbroken : ∀ c ∈ entryText e, isLineBreak c = false

section Entries

variable {key value text : List Char}

/-- The entry of a key and a value that are trimmed. -/
theorem Legible.of_trim (hkey : Flat key) (hvalue : Balanced value) (hne : Text.trim key ≠ [])
    (hbreak : ∀ c ∈ key ++ value, isLineBreak c = false) :
    Legible (String.ofList (Text.trim key), String.ofList (Text.trim value)) where
  key_ne_empty := by simpa using hne
  key_trimmed := Text.trimmed_ofList_trim key
  key_flat := by rwa [String.toList_ofList, ignoresEnds_flat.trim]
  value_trimmed _ := Text.trimmed_ofList_trim value
  value_balanced := by rwa [String.toList_ofList, ignoresEnds_balanced.trim]
  unbroken c hc := by
    simp only [entryText, String.toList_ofList, List.mem_append, List.mem_cons,
      List.not_mem_nil, or_false] at hc
    rcases hc with hc | rfl | hc | rfl
    · exact hbreak c (List.mem_append_left _ ((Text.trim_sublist key).subset hc))
    · decide
    · exact hbreak c (List.mem_append_right _ ((Text.trim_sublist value).subset hc))
    · decide

/-- A trimmed value under `other`. -/
theorem Legible.other (hvalue : Balanced value) (hbreak : ∀ c ∈ value, isLineBreak c = false) :
    Legible (otherKey, String.ofList (Text.trim value)) := by
  have hkey : String.ofList (Text.trim otherKey.toList) = otherKey := by decide
  rw [← hkey]
  refine .of_trim (by decide) hvalue (by decide) ?_
  have honeLine : OneLine otherKey.toList := by decide
  exact List.forall_mem_append.mpr ⟨fun c hc => (honeLine c hc).2, hbreak⟩

/-- Values that are joined under `other`. -/
theorem Legible.join {former value : String} (hformer : Legible (otherKey, former))
    (hvalue : Legible (otherKey, value)) : Legible (otherKey, former ++ ", " ++ value) where
  key_ne_empty := hformer.key_ne_empty
  key_trimmed := hformer.key_trimmed
  key_flat := hformer.key_flat
  value_trimmed hne := absurd rfl hne
  value_balanced := by
    -- The separator neither ends nor starts a comment mark, so each part is marked by itself.
    have hmore : Balanced ([',', ' '] ++ value.toList) :=
      (balanced_append_iff (by decide) fun hlast => by simp at hlast).mpr hvalue.value_balanced
    rw [String.toList_append, String.toList_append, List.append_assoc]
    exact (balanced_append_iff hformer.value_balanced fun _ hhead => by simp at hhead).mpr hmore
  unbroken c hc := by
    have hformer := hformer.unbroken c
    have hvalue := hvalue.unbroken c
    have honeLine : OneLine ", ".toList := by decide
    simp only [entryText, String.toList_append, List.mem_append, List.mem_cons] at hc hformer hvalue
    rcases hc with hc | hc | ((hc | hc) | hc) | hc
    · exact hformer (.inl hc)
    · exact hformer (.inr (.inl hc))
    · exact hformer (.inr (.inr (.inl hc)))
    · exact (honeLine c hc).2
    · exact hvalue (.inr (.inr (.inl hc)))
    · exact hformer (.inr (.inr (.inr hc)))

/-- The entry of a bracket. -/
theorem groupEntry_legible (hkey : Flat key) (hvalue : Balanced value)
    (hbreak : ∀ c ∈ key ++ value, isLineBreak c = false) : Legible (groupEntry key value) := by
  obtain ⟨hkeys, hvalues⟩ := List.forall_mem_append.mp hbreak
  rw [groupEntry]
  split_ifs with hempty
  · exact .other hvalue hvalues
  · refine .of_trim ?_ hvalue hempty (List.forall_mem_append.mpr ⟨fun c hc => ?_, hvalues⟩)
    · -- Blanks and colons at the ends of a key make no difference to what the scanner sees in it.
      rwa [ignoresEnds_flat.dropColons, ignoresEnds_flat.trim]
    · exact hkeys c ((Text.trim_sublist key).subset ((List.rdropWhile_prefix _ _).subset hc))

/-- The entry of a text without brackets. -/
theorem textEntries_legible (h : Flat text) (hbreak : ∀ c ∈ text, isLineBreak c = false) :
    ∀ e ∈ textEntries text, Legible e ∨ CutInLiteral text e := by
  have hother : Legible (otherKey, String.ofList (Text.trim text)) := .other h.balanced hbreak
  intro e he
  rw [textEntries] at he
  split_ifs at he
  · cases he
  · split at he
    case h_2 =>
      obtain rfl := List.mem_singleton.mp he
      exact .inl hother
    case h_1 key value hsplit =>
      split_ifs at he with hblank
      · obtain rfl := List.mem_singleton.mp he
        exact .inl hother
      · obtain rfl := List.mem_singleton.mp he
        by_cases hkey : LiteralClosed key
        · -- The colon stands outside literal spans, so the text is divided there.
          have hjoin : [':'].intercalate ((Text.trim text).splitOn ':') = Text.trim text :=
            List.intercalate_splitOn ':'
          rw [hsplit, List.intercalate_cons_cons, List.intercalate_singleton, List.append_assoc,
            List.singleton_append] at hjoin
          have hflat : Flat (key ++ ':' :: value) := by rwa [hjoin, ignoresEnds_flat.trim]
          obtain ⟨hflatKey, hrest⟩ :=
            (flat_append_iff hkey fun _ hhead => by simp at hhead).mp hflat
          have hflatValue : Flat value := (ignoresEnds_flat.cons inert_colon value).mp hrest
          refine .inl (.of_trim hflatKey hflatValue.balanced ?_ fun c hc => ?_)
          · rw [Ne, Text.trim_eq_nil_iff]
            simpa [Text.blank] using hblank
          · refine hbreak c ((Text.trim_sublist text).subset ?_)
            rw [← hjoin]
            rcases List.mem_append.mp hc with hc | hc
            · exact List.mem_append_left _ hc
            · exact List.mem_append_right _ (List.mem_cons_of_mem _ hc)
        · exact .inr ⟨key, value, hsplit, hkey, rfl⟩

end Entries

theorem SelfMarked.flat {ms : List Marked} (h : SelfMarked ms) (hplain : ∀ m ∈ ms, Plain m) :
    Flat (ms.map Marked.char) := by
  rw [Flat, LiteralClosed, h]
  exact ⟨rfl, hplain⟩

theorem SelfMarked.balanced {ms : List Marked} (h : SelfMarked ms)
    (hdepth : depthAfter? 0 ms = some 0) : Balanced (ms.map Marked.char) := by
  rw [Balanced, LiteralClosed, h]
  exact ⟨rfl, hdepth⟩

/-- **The entries of a field** can be read, but for the one that its last text stands for when this
is cut inside a literal span. -/
theorem fieldEntries_legible {field : List (List Marked)} (h : Alternating field)
    (hself : ∀ part ∈ field, SelfMarked part) :
    ∀ e ∈ fieldEntries (field.map fun part => part.map Marked.char), Legible e ∨
      ∃ text ∈ (field.map fun part => part.map Marked.char).getLast?, CutInLiteral text e := by
  -- Induction on the brackets of the field; the text after the last one is left in the end.
  induction h with
  | @last text plain =>
    have htext := List.forall_mem_singleton.mp hself
    intro e he
    exact (textEntries_legible (htext.flat plain) htext.not_break e he).imp_right fun hcut =>
      ⟨_, rfl, hcut⟩
  | @group before inside parts plain balanced rest ih =>
    obtain ⟨hbefore, hinside, hparts⟩ :
        SelfMarked before ∧ SelfMarked inside ∧ ∀ part ∈ parts, SelfMarked part := by
      simpa using hself
    intro e he
    rw [List.map_cons, List.map_cons, fieldEntries] at he
    rcases List.mem_cons.mp he with rfl | he
    · exact .inl (groupEntry_legible (hbefore.flat plain) (hinside.balanced balanced)
        (List.forall_mem_append.mpr ⟨hbefore.not_break, hinside.not_break⟩))
    · rcases ih hparts e he with hlegible | ⟨text, htext, hcut⟩
      · exact .inl hlegible
      · refine .inr ⟨text, ?_, hcut⟩
        rw [List.map_cons, List.map_cons, List.getLast?_cons, List.getLast?_cons, htext]
        rfl

/-! ## Whole payloads -/

/-- **The bag of a payload by its content**, the text before the closing bracket of the node. -/
theorem exists_content {content : String} {s : Scan} (h : scan .pairs content = .ok s) :
    ∃ text, IsContent (mark .outside content.toList).1 text ∧ depthAfter? 0 text = some 0 ∧
      (MarksWhole .outside content.toList → SelfMarked text) ∧
      s.attributes = Bag.ofList ((fields 0 text).flatMap fieldEntries) := by
  obtain ⟨ms, last, hspans⟩ := exists_spans content.toList
  obtain rfl := last_eq_of_scan h hspans
  have hmark := hspans.mark_eq
  -- The content ends at a bracket outside literal spans, or with the text.
  obtain ⟨text, htext, hself⟩ : ∃ text, IsContent ms text ∧ (SelfMarked ms → SelfMarked text) := by
    by_cases hcloses : ClosesNode ms
    · obtain ⟨before, close, after, hclose⟩ := hcloses
      have hliteral : close.literal = false := Marked.literal_eq_false_of_closes hclose.closes
      exact ⟨before, .inl ⟨close, after, hclose⟩,
        fun hms => (hclose.split ▸ hms).split hliteral |>.1⟩
    · exact ⟨ms, .inr ⟨rfl, hcloses⟩, id⟩
  obtain ⟨p, hdepth, hrun, hp, hbag⟩ := exists_run_content h hspans htext
  refine ⟨text, by rwa [hmark], hdepth, fun hwhole => hself (.of_mark hwhole hmark), ?_⟩
  rw [hbag, ← Place.bag_nil hp.depth_eq, Place.bag_run Place.Open.start hdepth hrun,
    Place.bag_start]

/-- An entry that comes of the last text of a field, which is cut inside a literal span. -/
def CutFrom (text : List Marked) (e : String × String) : Prop :=
  ∃ field ∈ fields 0 text, ∃ last ∈ field.getLast?, CutInLiteral last e

/-- The pairs that the fields of a content stand for. -/
theorem pairs_legible {text : List Marked} (hself : SelfMarked text)
    (hdepth : depthAfter? 0 text = some 0) :
    ∀ e ∈ (fields 0 text).flatMap fieldEntries, Legible e ∨ CutFrom text e := by
  obtain ⟨field, rest, hfields, hfield, hrest⟩ := @alternating_markedFields 0 text hdepth
  have halternating : ∀ field ∈ markedFields 0 text, Alternating field := by
    rw [show markedFields 0 text = field :: rest from hfields]
    exact List.forall_mem_cons.mpr ⟨hfield, hrest⟩
  intro e he
  obtain ⟨_, hmem, he⟩ := List.mem_flatMap.mp he
  have hmarked := hmem
  rw [fields_eq_map] at hmarked
  obtain ⟨field, hfield, rfl⟩ := List.mem_map.mp hmarked
  have hparts := hself.of_mem_markedFields field hfield
  exact (fieldEntries_legible (halternating field hfield) hparts e he).imp_right fun hcut =>
    ⟨_, hmem, hcut⟩

/-- The key `other` closes its literal spans, so a value under it does not come of a cut. -/
theorem Legible.of_other {text : List Marked} {value : String}
    (h : Legible (otherKey, value) ∨ CutFrom text (otherKey, value)) :
    Legible (otherKey, value) := by
  rcases h with h | ⟨_, _, _, _, hcut⟩
  · exact h
  · exact absurd literalClosed_otherKey hcut.not_literalClosed

/-- The entries of a payload can be read, unless they are cut inside a literal span. -/
theorem entries_legible {content : String} {s : Scan} (hwhole : MarksWhole .outside content.toList)
    (h : scan .pairs content = .ok s) :
    (s.attributes.entries.map (·.1)).Nodup ∧
      ∃ text, IsContent (mark .outside content.toList).1 text ∧
        ∀ e ∈ s.attributes.entries, Legible e ∨ CutFrom text e := by
  obtain ⟨text, htext, hdepth, hself, hbag⟩ := exists_content h
  rw [hbag, Bag.ofList_eq_insertAll]
  refine ⟨Bag.nodup_insertAll List.nodup_nil, text, htext, Bag.forall_mem_insertAll ?_
    (pairs_legible (hself hwhole) hdepth) fun former value hformer hvalue => ?_⟩
  · exact fun e he => absurd he List.not_mem_nil
  · exact .inl (.join (.of_other hformer) (.of_other hvalue))

/-- **The entries of a payload close their literal spans**, whatever the node type unless it is that
of filters and as long as line breaks keep no comment mark apart. Only where a field has one colon
and this stands inside a literal span, the entry that the field is cut into may not. -/
theorem entries_literalClosed {nodeType content : String} {s : Scan}
    (hpairs : nodeType ≠ filterKeyword) (hwhole : MarksWhole .outside content.toList)
    (h : scan (.ofType nodeType) content = .ok s) :
    ∃ text, IsContent (mark .outside content.toList).1 text ∧
      ∀ e ∈ s.attributes.entries,
        (LiteralClosed e.1.toList ∧ LiteralClosed e.2.toList) ∨ CutFrom text e := by
  have hreading : Reading.ofType nodeType = .pairs := if_neg hpairs
  rw [hreading] at h
  obtain ⟨-, text, htext, hentries⟩ := entries_legible hwhole h
  refine ⟨text, htext, fun e he => (hentries e he).imp_left fun hlegible => ?_⟩
  exact ⟨hlegible.key_flat.literalClosed, hlegible.value_balanced.literalClosed⟩

/-- A payload with literal spans in a bracket, around a comma and around a colon. -/
def quotedContent : String :=
  "output('a)' as b), x: /* , */ 1, 'k:v'"

theorem entries_literalClosed_quotedContent :
    "derive" ≠ filterKeyword ∧ MarksWhole .outside quotedContent.toList ∧
      scan (.ofType "derive") quotedContent =
        .ok { attributes := ⟨[("output", "'a)' as b"), ("x", "/* , */ 1"), ("'k", "v'")]⟩ } ∧
      ∃ text, IsContent (mark .outside quotedContent.toList).1 text ∧
        ∀ e ∈ [("output", "'a)' as b"), ("x", "/* , */ 1"), ("'k", "v'")],
          (LiteralClosed e.1.toList ∧ LiteralClosed e.2.toList) ∨ CutFrom text e := by
  have hpairs : "derive" ≠ filterKeyword := by decide
  have hwhole : MarksWhole .outside quotedContent.toList := by decide +kernel
  have hscan : scan (.ofType "derive") quotedContent =
      .ok { attributes := ⟨[("output", "'a)' as b"), ("x", "/* , */ 1"), ("'k", "v'")]⟩ } := by
    decide +kernel
  exact ⟨hpairs, hwhole, hscan, entries_literalClosed hpairs hwhole hscan⟩

/-- A string that is cut at its colon, and a comment mark that is made up when a line break goes. -/
theorem scan_cutEntries :
    "derive" ≠ filterKeyword ∧
      scan (.ofType "derive") "'a:b'" = .ok { attributes := ⟨[("'a", "b'")]⟩ } ∧
      ¬ LiteralClosed "'a".toList ∧ ¬ LiteralClosed "b'".toList ∧
      scan (.ofType "derive") "/\n*" = .ok { attributes := ⟨[("other", "/*")]⟩ } ∧
      ¬ LiteralClosed "/*".toList := by
  decide +kernel

end FlowDoc.Payload
