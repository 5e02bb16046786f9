import Mathlib.Data.List.Nodup
import FlowDoc.Proofs.Payload.Scanning
import FlowDoc.Proofs.Text.Parts

/-!
# The entries of a payload

Whatever text is read as a payload, the bag that comes of it is well formed: its keys are distinct,
trimmed and not empty, its values are trimmed unless they were collected under `other`, and neither
holds a line break. This is an invariant of the scanner, which adds entries in two places only,
where a bracket closes and where a field ends. Read verbatim, a payload has one entry at most.

## Main definitions

* `OneLine`: a text without tabs and line breaks
* `Bag.WellFormed`: the entries that a payload may have
* `Bag.IsExpression`: the entries that a payload read verbatim may have
* `Place.Clean`, `Place.Whole`: the invariants of the scanner

## Main results

* `Bag.WellFormed.insert`: a well-formed bag takes in a well-formed entry
* `Place.Clean.step`, `Place.Whole.step`: one character keeps the invariants
* `wellFormed_of_scan`, `isExpression_of_scan`: the bag of a payload
-/

namespace FlowDoc

/-- A text without tabs and line breaks. -/
def OneLine (text : List Char) : Prop :=
  ∀ c ∈ text, c ≠ '\t' ∧ Payload.isLineBreak c = false

instance (text : List Char) : Decidable (OneLine text) :=
  -- Decided by going through the text, not through all characters.
  List.decidableBAll (fun c => c ≠ '\t' ∧ Payload.isLineBreak c = false) text

namespace OneLine

theorem empty : OneLine "".toList := by
  rw [String.toList_empty]
  intro c hc
  cases hc

theorem append {xs ys : List Char} (hxs : OneLine xs) (hys : OneLine ys) : OneLine (xs ++ ys) :=
  List.forall_mem_append.mpr ⟨hxs, hys⟩

theorem of_subset {xs ys : List Char} (h : OneLine ys) (hsub : ∀ c ∈ xs, c ∈ ys) : OneLine xs :=
  fun c hc => h c (hsub c hc)

theorem trim {cs : List Char} (h : OneLine cs) : OneLine (Text.trim cs) :=
  h.of_subset fun _ hc => (Text.trim_sublist cs).subset hc

end OneLine

/-! ## Bags -/

/-- An entry with a key that is trimmed and not empty, and a value that is trimmed unless it was
collected under `other`, neither with tabs or line breaks. -/
structure EntryWellFormed (key value : String) : Prop where
  key_ne_empty : key ≠ ""
  key_trimmed : Text.trimmed key = key
  key_oneLine : OneLine key.toList
  value_oneLine : OneLine value.toList
  value_trimmed : key ≠ otherKey → Text.trimmed value = value

/-- What is collected under `other` needs no trimming. -/
theorem EntryWellFormed.other {value : String} (h : OneLine value.toList) :
    EntryWellFormed otherKey value where
  key_ne_empty := by decide
  key_trimmed := by decide
  key_oneLine := by decide
  value_oneLine := h
  value_trimmed hne := absurd rfl hne

namespace Bag

/-- A bag whose keys are distinct and whose entries are well formed. -/
structure WellFormed (bag : Bag) : Prop where
  keys_nodup : (bag.entries.map (·.1)).Nodup
  entry : ∀ e ∈ bag.entries, EntryWellFormed e.1 e.2

/-- A bag that is empty or holds one text, trimmed and not empty, under `other`. -/
def IsExpression (bag : Bag) : Prop :=
  bag.entries = [] ∨
    ∃ text, bag.entries = [(otherKey, text)] ∧ text ≠ "" ∧ Text.trimmed text = text

theorem WellFormed.empty : WellFormed {} :=
  ⟨List.nodup_nil, fun _ he => absurd he List.not_mem_nil⟩

/-- Inserting a pair adds its key last, unless it is there. -/
theorem map_fst_insertEntry (key value : String) (entries : List (String × String)) :
    (insertEntry key value entries).map (·.1) =
      if key ∈ entries.map (·.1) then entries.map (·.1) else entries.map (·.1) ++ [key] := by
  induction entries with
  | nil => rfl
  | cons e entries ih =>
    rw [insertEntry, List.map_cons]
    by_cases he : e.1 = key
    · have hmem : key ∈ e.1 :: entries.map (·.1) := he ▸ List.mem_cons_self
      rw [if_pos he, if_pos hmem, List.map_cons]
    · have hmem : key ∈ e.1 :: entries.map (·.1) ↔ key ∈ entries.map (·.1) := by
        simp [Ne.symm he]
      rw [if_neg he, List.map_cons, ih]
      simp only [hmem]
      split_ifs
      · rfl
      · rfl

/-- An entry after inserting a pair was there before, or it has the pair's key, with the pair's
value or with that value joined to the former one under `other`. -/
theorem mem_insertEntry {key value : String} {entries : List (String × String)}
    {e : String × String}
    (he : e ∈ insertEntry key value entries) :
    e ∈ entries ∨ e = (key, value) ∨
      ∃ former, (key, former) ∈ entries ∧ key = otherKey ∧ e = (key, former ++ ", " ++ value) := by
  induction entries with
  | nil => exact .inr (.inl (List.mem_singleton.mp he))
  | cons a entries ih =>
    rw [insertEntry] at he
    split_ifs at he with hkey hother
    · subst hkey
      rcases List.mem_cons.mp he with rfl | he
      · exact .inr (.inr ⟨a.2, List.mem_cons_self, hother, rfl⟩)
      · exact .inl (List.mem_cons_of_mem _ he)
    · subst hkey
      rcases List.mem_cons.mp he with rfl | he
      · exact .inr (.inl rfl)
      · exact .inl (List.mem_cons_of_mem _ he)
    · rcases List.mem_cons.mp he with rfl | he
      · exact .inl List.mem_cons_self
      · rcases ih he with h | h | ⟨former, hformer, hother, rfl⟩
        · exact .inl (List.mem_cons_of_mem _ h)
        · exact .inr (.inl h)
        · exact .inr (.inr ⟨former, List.mem_cons_of_mem _ hformer, hother, rfl⟩)

/-- Inserting a pair keeps the keys distinct. -/
theorem nodup_insert {bag : Bag} (h : (bag.entries.map (·.1)).Nodup) (key value : String) :
    ((bag.insert key value).entries.map (·.1)).Nodup := by
  rw [Bag.insert, map_fst_insertEntry]
  split_ifs with hmem
  · exact h
  · rw [List.nodup_append_comm]
    exact List.nodup_cons.mpr ⟨hmem, h⟩

/-- **A well-formed bag takes in a well-formed entry.** -/
theorem WellFormed.insert {bag : Bag} (h : bag.WellFormed) {key value : String}
    (hentry : EntryWellFormed key value) : (bag.insert key value).WellFormed where
  keys_nodup := nodup_insert h.keys_nodup key value
  entry e he := by
    rcases mem_insertEntry he with he | rfl | ⟨former, hformer, rfl, rfl⟩
    · exact h.entry e he
    · exact hentry
    · -- Values under `other` are joined by a comma and a blank.
      apply EntryWellFormed.other
      rw [String.toList_append, String.toList_append]
      exact ((h.entry _ hformer).value_oneLine.append (by decide)).append hentry.value_oneLine

end Bag

namespace Payload

/-! ## What is added to a bag -/

/-- A character of a marked text is a character of the text, and no line break. -/
theorem mem_of_mem_mark {literal : Literal} {cs : List Char} {m : Marked}
    (h : m ∈ (mark literal cs).1) : m.char ∈ cs ∧ isLineBreak m.char = false := by
  -- One case for each way in which a text is marked from its start.
  fun_induction mark literal cs with
  | case1 => cases h
  | case2 cs marked last hmark ih =>
    rw [hmark] at ih
    rcases List.mem_cons.mp h with rfl | h
    · simp; decide
    · rcases List.mem_cons.mp h with rfl | h
      · simp; decide
      · exact ⟨by simp [(ih h).1], (ih h).2⟩
  | case3 cs marked last hmark ih =>
    rw [hmark] at ih
    rcases List.mem_cons.mp h with rfl | h
    · simp; decide
    · rcases List.mem_cons.mp h with rfl | h
      · simp; decide
      · exact ⟨by simp [(ih h).1], (ih h).2⟩
  | case4 literal c cs hopen hclose hbreak ih =>
    obtain ⟨hmem, hno⟩ := ih h
    exact ⟨List.mem_cons_of_mem _ hmem, hno⟩
  | case5 literal c cs hopen hclose hbreak inside next hstep marked last hmark ih =>
    rw [hmark] at ih
    rcases List.mem_cons.mp h with rfl | h
    · exact ⟨List.mem_cons_self, by simpa using hbreak⟩
    · obtain ⟨hmem, hno⟩ := ih h
      exact ⟨List.mem_cons_of_mem _ hmem, hno⟩

theorem trimColons_subset (cs : List Char) : ∀ c ∈ trimColons cs, c ∈ cs := by
  intro c hc
  have hrev := (List.dropWhile_sublist _).subset (List.mem_reverse.mp hc)
  exact List.mem_reverse.mp hrev

theorem toList_bracketKey (text : String) :
    (bracketKey text).toList = Text.trim (trimColons (Text.trim text.toList)) := by
  rw [bracketKey, String.toList_ofList]

theorem trimmed_bracketKey (text : String) : Text.trimmed (bracketKey text) = bracketKey text := by
  rw [bracketKey, Text.trimmed_ofList_trim]

theorem oneLine_bracketKey {text : String} (h : OneLine text.toList) :
    OneLine (bracketKey text).toList := by
  rw [toList_bracketKey]
  exact (h.trim.of_subset (trimColons_subset _)).trim

/-- A field stands for a well-formed entry. -/
theorem fieldEntry_wellFormed {field : String} (h : OneLine field.toList) :
    EntryWellFormed (fieldEntry field).1 (fieldEntry field).2 := by
  rw [fieldEntry]
  split
  case h_2 => exact .other h
  case h_1 key value hcut =>
    split_ifs with hother
    · exact .other h
    · have hkey : Text.trim key ≠ [] := by
        intro hnil
        apply hother
        rw [Bool.or_eq_true, Text.blank, List.all_eq_true]
        exact .inr (Text.trim_eq_nil_iff.mp hnil)
      refine ⟨?_, Text.trimmed_ofList_trim key, ?_, ?_, fun _ => Text.trimmed_ofList_trim value⟩
      · simpa using hkey
      · rw [String.toList_ofList]
        exact (h.of_subset fun c hc => Text.mem_of_cut_singleton hcut (.inl hc)).trim
      · rw [String.toList_ofList]
        exact (h.of_subset fun c hc => Text.mem_of_cut_singleton hcut (.inr hc)).trim

namespace Scan

theorem wellFormed_addBracketed {s : Scan} (hs : s.attributes.WellFormed) {key value : String}
    (hkey : OneLine key.toList) (hvalue : OneLine value.toList) :
    (s.addBracketed key value).attributes.WellFormed := by
  have htrim : OneLine (Text.trimmed value).toList := by
    rw [Text.toList_trimmed]
    exact hvalue.trim
  unfold addBracketed
  extract_lets
  split_ifs with hempty
  · exact hs.insert (.other htrim)
  · exact hs.insert ⟨hempty, trimmed_bracketKey key, oneLine_bracketKey hkey, htrim,
      fun _ => Text.trimmed_trimmed value⟩

theorem wellFormed_addField (reading : Reading) {s : Scan} (hs : s.attributes.WellFormed)
    {field : String} (hfield : OneLine field.toList) :
    (s.addField reading field).attributes.WellFormed := by
  have htrim : OneLine (Text.trimmed field).toList := by
    rw [Text.toList_trimmed]
    exact hfield.trim
  unfold addField
  extract_lets
  split_ifs
  · exact hs
  · cases reading with
    | verbatim => exact hs.insert (.other htrim)
    | pairs => exact hs.insert (fieldEntry_wellFormed htrim)

end Scan

/-! ## The invariants of the scanner -/

namespace Place

/-- What was read up to a place is well formed, and the texts in hand are of one line. -/
structure Clean (p : Place) : Prop where
  attributes : p.done.attributes.WellFormed
  field : OneLine p.field.toList
  key : OneLine p.key.toList

/-- Read verbatim, a payload adds its one entry where it is closed. -/
structure Whole (p : Place) : Prop where
  isExpression : p.done.attributes.IsExpression
  open_empty : p.done.closed = false → p.done.attributes.entries = []

variable {reading : Reading} {p p' : Place} {m : Marked}

theorem Clean.start : Clean {} :=
  ⟨.empty, OneLine.empty, OneLine.empty⟩

theorem Clean.push (h : p.Clean) {c : Char} (hc : OneLine [c]) : (p.push c).Clean := by
  refine ⟨h.attributes, ?_, h.key⟩
  rw [Place.push, String.toList_push]
  exact h.field.append hc

theorem Clean.endField (h : p.Clean) : (p.endField reading).Clean := by
  have hadded := Scan.wellFormed_addField reading h.attributes h.field
  rw [Place.endField]
  exact ⟨hadded, OneLine.empty, h.key⟩

theorem Clean.openBracket (h : p.Clean) {c : Char} (hc : OneLine [c]) :
    (p.openBracket reading c).Clean := by
  rw [Place.openBracket]
  split_ifs
  · exact ⟨h.attributes, OneLine.empty, h.field⟩
  · obtain ⟨hattributes, hfield, hkey⟩ := h.push hc
    exact ⟨hattributes, hfield, hkey⟩

theorem Clean.closeBracket (h : p.Clean) {c : Char} (hc : OneLine [c]) :
    (p.closeBracket reading c).Clean := by
  unfold Place.closeBracket
  cases p.depth with
  | zero =>
    have hended : (p.endField reading).Clean := h.endField
    dsimp only
    generalize p.endField reading = q at hended ⊢
    exact ⟨hended.attributes, hended.field, hended.key⟩
  | succ depth =>
    dsimp only
    split_ifs
    · have hadded := Scan.wellFormed_addBracketed h.attributes h.key h.field
      exact ⟨hadded, OneLine.empty, OneLine.empty⟩
    · obtain ⟨hattributes, hfield, hkey⟩ := h.push hc
      exact ⟨hattributes, hfield, hkey⟩

theorem Clean.within (h : p.Clean) (hm : OneLine [m.char]) : (p.within reading m).Clean := by
  rw [Place.within]
  by_cases hliteral : m.literal
  · rw [if_pos hliteral]
    exact h.push hm
  · rw [if_neg hliteral]
    split
    · exact h.openBracket hm
    · exact h.openBracket hm
    · exact h.closeBracket hm
    · exact h.closeBracket hm
    · split_ifs
      · exact h.endField
      · exact h.push (by decide)
    · exact h.push hm

/-- A character after the closing bracket adds nothing to the bag. -/
theorem beyond_attributes (h : p.beyond m = .ok p') :
    p'.done.attributes = p.done.attributes ∧ p'.done.closed = p.done.closed ∧
      p'.field = p.field ∧ p'.key = p.key := by
  rw [beyond] at h
  split_ifs at h
  · cases h
    exact ⟨rfl, rfl, rfl, rfl⟩
  · cases h
    exact ⟨rfl, rfl, rfl, rfl⟩

/-- **One character keeps the bag well formed.** -/
theorem Clean.step (h : p.Clean) (hm : OneLine [m.char]) (hstep : Place.step reading p m = .ok p') :
    p'.Clean := by
  rw [Place.step] at hstep
  split_ifs at hstep
  · obtain ⟨hattributes, -, hfield, hkey⟩ := beyond_attributes hstep
    exact ⟨hattributes ▸ h.attributes, hfield ▸ h.field, hkey ▸ h.key⟩
  · obtain rfl := Except.ok.inj hstep
    exact h.within hm

theorem Whole.start : Whole {} :=
  ⟨.inl rfl, fun _ => rfl⟩

/-- The end of the expression: the bag was empty before. -/
theorem Whole.isExpression_endField (h : p.Whole) (hopen : p.done.closed = false) :
    (p.endField .verbatim).done.attributes.IsExpression := by
  unfold endField Scan.addField
  extract_lets
  split_ifs with hempty
  · exact h.isExpression
  · refine .inr ⟨Text.trimmed p.field, ?_, hempty, Text.trimmed_trimmed _⟩
    rw [Bag.insert, h.open_empty hopen]
    rfl

/-- A place with the same bag, in a payload that is closed or not as before. -/
theorem Whole.of_eq (h : p.Whole) (hattributes : p'.done.attributes = p.done.attributes)
    (hclosed : p'.done.closed = p.done.closed) : p'.Whole := by
  obtain ⟨hexpression, hempty⟩ := h
  rw [← hattributes] at hexpression hempty
  rw [← hclosed] at hempty
  exact ⟨hexpression, hempty⟩

theorem Whole.openBracket (h : p.Whole) (c : Char) : (p.openBracket .verbatim c).Whole := by
  rw [Place.openBracket, if_neg (by simp)]
  exact h.of_eq rfl rfl

theorem Whole.closeBracket (h : p.Whole) (hopen : p.done.closed = false) (c : Char) :
    (p.closeBracket .verbatim c).Whole := by
  unfold Place.closeBracket
  cases p.depth with
  | zero =>
    have hended := h.isExpression_endField hopen
    dsimp only
    generalize p.endField .verbatim = q at hended ⊢
    exact ⟨hended, fun hfalse => by cases hfalse⟩
  | succ depth =>
    dsimp only
    rw [if_neg (by simp)]
    exact h.of_eq rfl rfl

theorem Whole.within (h : p.Whole) (hopen : p.done.closed = false) :
    (p.within .verbatim m).Whole := by
  rw [Place.within]
  by_cases hliteral : m.literal
  · rw [if_pos hliteral]
    exact h.of_eq rfl rfl
  · rw [if_neg hliteral]
    -- Only a closing bracket can end the expression: commas belong to it.
    split
    · exact h.openBracket _
    · exact h.openBracket _
    · exact h.closeBracket hopen _
    · exact h.closeBracket hopen _
    · rw [if_neg (by simp)]
      exact h.of_eq rfl rfl
    · exact h.of_eq rfl rfl

/-- **One character keeps a payload read verbatim whole.** -/
theorem Whole.step (h : p.Whole) (hstep : Place.step .verbatim p m = .ok p') : p'.Whole := by
  rw [Place.step] at hstep
  split_ifs at hstep with hclosed
  · obtain ⟨hattributes, hsame, -, -⟩ := beyond_attributes hstep
    exact h.of_eq hattributes hsame
  · obtain rfl := Except.ok.inj hstep
    exact h.within (by simpa using hclosed)

end Place

/-! ## Whole payloads -/

/-- How a payload is read: over all its characters, and then to its end. -/
theorem scan_eq_ok_iff {reading : Reading} {content : String} {s : Scan} :
    scan reading content = .ok s ↔
      ∃ p, (mark .outside content.toList).1.foldlM (Place.step reading) {} = .ok p ∧
        p.finish reading (mark .outside content.toList).2 = .ok s := by
  rw [scan]
  exact bind_eq_ok_iff

/-- What a place yields at the end: its bag, with the field in hand unless the payload is closed. -/
theorem Place.finish_eq_ok {reading : Reading} {p : Place} {last : Literal} {s : Scan}
    (h : p.finish reading last = .ok s) :
    s = p.done ∨ (p.done.closed = false ∧ s = (p.endField reading).done) := by
  unfold finish at h
  split at h
  · cases h
  · cases h
  · split_ifs at h with hdepth hclosed
    · exact .inl (Except.ok.inj h).symm
    · exact .inr ⟨by simpa using hclosed, (Except.ok.inj h).symm⟩

/-- **The bag of a payload is well formed**, whatever the text, as long as it holds no tab. -/
theorem wellFormed_of_scan {reading : Reading} {content : String} {s : Scan}
    (htab : ∀ c ∈ content.toList, c ≠ '\t') (h : scan reading content = .ok s) :
    s.attributes.WellFormed := by
  obtain ⟨p, hrun, hfinish⟩ := scan_eq_ok_iff.mp h
  have hp : p.Clean := by
    refine foldlM_invariant (P := Place.Clean) (fun q q' m hm hq hstep => ?_) hrun .start
    obtain ⟨hmem, hbreak⟩ := mem_of_mem_mark hm
    refine hq.step ?_ hstep
    intro c hc
    obtain rfl := List.mem_singleton.mp hc
    exact ⟨htab _ hmem, hbreak⟩
  rcases Place.finish_eq_ok hfinish with rfl | ⟨-, rfl⟩
  · exact hp.attributes
  · exact hp.endField.attributes

/-- **A payload read verbatim is one expression or none.** -/
theorem isExpression_of_scan {content : String} {s : Scan} (h : scan .verbatim content = .ok s) :
    s.attributes.IsExpression := by
  obtain ⟨p, hrun, hfinish⟩ := scan_eq_ok_iff.mp h
  have hp : p.Whole :=
    foldlM_invariant (P := Place.Whole) (fun q q' m _ hq hstep => hq.step hstep) hrun .start
  rcases Place.finish_eq_ok hfinish with rfl | ⟨hopen, rfl⟩
  · exact hp.isExpression
  · exact hp.isExpression_endField hopen

end Payload

end FlowDoc
