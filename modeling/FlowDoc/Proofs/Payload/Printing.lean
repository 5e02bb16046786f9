import FlowDoc.Proofs.Payload.Scanning
import FlowDoc.Proofs.Text

/-!
# Printing a payload

A bag is printed as each of its entries, `key(value)`, joined by commas; the bag of a filter as its
expression. Read up to the bracket that closes it, the printed text is the bag again, as long as its
keys mean nothing to the scanner and its values keep their brackets balanced.

## Main definitions

* `PrintableKey`, `PrintableValue`: keys and values that are read back from their texts
* `Printable`: bags that are read back from their texts
* `printed`: the text of a bag

## Main results

* `leads_entries`, `leads_printable`: the scanner adds the entries one by one
* `scan_printed`: what is printed is read back
-/

namespace FlowDoc

namespace Bag

/-- A new key comes last. -/
theorem insertEntry_of_notMem {key : String} (value : String) {entries : List (String × String)}
    (h : key ∉ entries.map (·.1)) : insertEntry key value entries = entries ++ [(key, value)] := by
  induction entries with
  | nil => rfl
  | cons e entries ih =>
    obtain ⟨hne, hrest⟩ := not_or.mp (List.mem_cons.not.mp h)
    rw [insertEntry, if_neg (Ne.symm hne), ih hrest]
    rfl

end Bag

namespace Payload

/-! ## Printable bags -/

/-- A text that closes exactly the brackets that it opens and ends outside literal spans. -/
def Balanced (text : List Char) : Prop :=
  LiteralClosed text ∧ depthAfter? 0 (mark .outside text).1 = some 0

/-- A text that means nothing to the scanner at depth zero and ends outside literal spans. -/
def Flat (text : List Char) : Prop :=
  LiteralClosed text ∧ ∀ m ∈ (mark .outside text).1, Plain m

/-- A key that is read back from its text. -/
structure PrintableKey (key : String) : Prop where
  ne_empty : key ≠ ""
  trimmed : Text.trimmed key = key
  no_colon : key.toList.getLast? ≠ some ':'
  flat : Flat key.toList

/-- A value that is read back from its text. -/
structure PrintableValue (value : String) : Prop where
  trimmed : Text.trimmed value = value
  balanced : Balanced value.toList

/-- A bag that is read back from its text: entries with distinct keys, or one expression or none. -/
def Printable : Reading → Bag → Prop
  | .pairs, ⟨entries⟩ =>
    (entries.map (·.1)).Nodup ∧ ∀ e ∈ entries, PrintableKey e.1 ∧ PrintableValue e.2
  | .verbatim, ⟨[]⟩ => True
  | .verbatim, ⟨[(key, text)]⟩ => key = otherKey ∧ text ≠ "" ∧ PrintableValue text
  | .verbatim, ⟨_ :: _ :: _⟩ => False

/-- The text of a bag. -/
def printed : Reading → Bag → String
  | .pairs, bag => bag.toPayload
  | .verbatim, bag => bag.other?.getD ""

section Decidable

instance (text : List Char) : Decidable (Balanced text) :=
  inferInstanceAs (Decidable (_ ∧ _))

instance (text : List Char) : Decidable (Flat text) :=
  inferInstanceAs (Decidable (_ ∧ _))

instance (key : String) : Decidable (PrintableKey key) :=
  decidable_of_iff
    (key ≠ "" ∧ Text.trimmed key = key ∧ key.toList.getLast? ≠ some ':' ∧ Flat key.toList)
    ⟨fun ⟨h₁, h₂, h₃, h₄⟩ => ⟨h₁, h₂, h₃, h₄⟩, fun ⟨h₁, h₂, h₃, h₄⟩ => ⟨h₁, h₂, h₃, h₄⟩⟩

instance (value : String) : Decidable (PrintableValue value) :=
  decidable_of_iff (Text.trimmed value = value ∧ Balanced value.toList)
    ⟨fun ⟨h₁, h₂⟩ => ⟨h₁, h₂⟩, fun ⟨h₁, h₂⟩ => ⟨h₁, h₂⟩⟩

instance : (reading : Reading) → (bag : Bag) → Decidable (Printable reading bag)
  | .pairs, ⟨_⟩ => inferInstanceAs (Decidable (_ ∧ _))
  | .verbatim, ⟨[]⟩ => inferInstanceAs (Decidable True)
  | .verbatim, ⟨[(_, _)]⟩ => inferInstanceAs (Decidable (_ ∧ _))
  | .verbatim, ⟨_ :: _ :: _⟩ => inferInstanceAs (Decidable False)

end Decidable

/-! ## Texts that are collected -/

namespace Place

variable {reading : Reading} {p : Place} {text : List Char}

theorem leads_of_flat (h : Flat text) (hbreak : ∀ c ∈ text, isLineBreak c = false)
    (hopen : p.done.closed = false) : Leads reading text p (p.collect text p.depth) := by
  obtain ⟨hclosed, hplain⟩ := h
  refine ⟨hclosed, ?_⟩
  rw [foldlM_step_of_plain hplain hopen, map_char_mark_of_breaks hbreak]

theorem leads_of_balanced (h : Balanced text) (hbreak : ∀ c ∈ text, isLineBreak c = false)
    (hopen : p.done.closed = false) (hbase : reading = .pairs → 0 < p.depth) :
    Leads reading text p (p.collect text p.depth) := by
  obtain ⟨hclosed, hdepth⟩ := h
  refine ⟨hclosed, ?_⟩
  rw [foldlM_step_of_depthAfter? hbase (Nat.add_zero _).symm hopen hdepth,
    map_char_mark_of_breaks hbreak]
  rfl

end Place

/-! ## Entries -/

theorem trimColons_of_no_colon {cs : List Char} (h : cs.getLast? ≠ some ':') :
    trimColons cs = cs := by
  rw [← List.head?_reverse] at h
  have hdrop : cs.reverse.dropWhile (· == ':') = cs.reverse := by
    cases hcs : cs.reverse with
    | nil => rfl
    | cons c rest =>
      rw [hcs] at h
      exact List.dropWhile_cons_of_neg fun hc => h (congrArg some (eq_of_beq hc))
  rw [trimColons, hdrop, List.reverse_reverse]

theorem PrintableKey.bracketKey_eq {key : String} (h : PrintableKey key) :
    bracketKey key = key := by
  have htrim : Text.trim key.toList = key.toList := by
    rw [← Text.toList_trimmed, h.trimmed]
  rw [bracketKey, htrim, trimColons_of_no_colon h.no_colon, htrim, String.ofList_toList]

namespace Scan

/-- What was read up to some entries, and these entries. -/
def addEntries (s : Scan) (entries : List (String × String)) : Scan :=
  entries.foldl (fun s e => s.addBracketed e.1 e.2) s

@[simp] theorem addEntries_nil (s : Scan) : s.addEntries [] = s := rfl

@[simp] theorem addEntries_cons (s : Scan) (e : String × String)
    (entries : List (String × String)) :
    s.addEntries (e :: entries) = (s.addBracketed e.1 e.2).addEntries entries := by
  rw [addEntries, List.foldl_cons, addEntries]

theorem addBracketed_of_printable {key value : String} (hk : PrintableKey key)
    (hv : PrintableValue value) (s : Scan) :
    s.addBracketed key value = { s with attributes := s.attributes.insert key value } := by
  rw [addBracketed, hk.bracketKey_eq, hv.trimmed]
  rw [if_neg hk.ne_empty]

/-- Printable entries with new keys come last in the bag. -/
theorem addEntries_of_printable {s : Scan} {entries : List (String × String)}
    (hnodup : ((s.attributes.entries ++ entries).map (·.1)).Nodup)
    (h : ∀ e ∈ entries, PrintableKey e.1 ∧ PrintableValue e.2) :
    s.addEntries entries = { s with attributes := ⟨s.attributes.entries ++ entries⟩ } := by
  induction entries generalizing s with
  | nil => rw [List.append_nil, addEntries_nil]
  | cons e entries ih =>
    obtain ⟨⟨hk, hv⟩, hrest⟩ := List.forall_mem_cons.mp h
    -- The key is new, as the keys before it and from it on are distinct.
    have hnew : e.1 ∉ s.attributes.entries.map (·.1) := by
      rw [List.map_append, List.map_cons] at hnodup
      exact fun hmem => (List.nodup_append.mp hnodup).2.2 _ hmem _ List.mem_cons_self rfl
    have hadd : s.addBracketed e.1 e.2 =
        { s with attributes := ⟨s.attributes.entries ++ [e]⟩ } := by
      rw [addBracketed_of_printable hk hv, Bag.insert, Bag.insertEntry_of_notMem e.2 hnew]
    have hsplit : s.attributes.entries ++ e :: entries =
        s.attributes.entries ++ [e] ++ entries := by
      rw [List.append_assoc, List.singleton_append]
    rw [addEntries_cons, hadd, hsplit]
    exact ih (hsplit ▸ hnodup) hrest

end Scan

/-- The text of an entry. -/
def entryText (e : String × String) : List Char :=
  e.1.toList ++ ('(' :: (e.2.toList ++ [')']))

theorem toList_toPayload (bag : Bag) :
    bag.toPayload.toList = [','].intercalate (bag.entries.map entryText) := by
  rw [Bag.toPayload, String.toList_intercalate, List.map_map]
  refine congrArg (fun f => [','].intercalate (bag.entries.map f)) (funext fun e => ?_)
  simp [entryText]

namespace Place

variable {s : Scan}

/-- Over the text of an entry the scanner adds it. -/
theorem leads_entryText {e : String × String} (hk : Flat e.1.toList) (hv : Balanced e.2.toList)
    (hbreak : ∀ c ∈ entryText e, isLineBreak c = false) (hopen : s.closed = false) :
    Leads .pairs (entryText e) { done := s } { done := s.addBracketed e.1 e.2 } := by
  -- The key is collected at depth zero, the value inside the bracket.
  have hkey : Leads .pairs e.1.toList { done := s } { done := s, field := e.1 } := by
    have h : Leads .pairs e.1.toList { done := s } _ :=
      leads_of_flat hk (fun c hc => hbreak c (by simp [entryText, hc])) hopen
    simpa [collect] using h
  have hopening : Leads .pairs ['('] { done := s, field := e.1 }
      { done := s, key := e.1, depth := 1 } := by
    refine Leads.of_step (by decide) (by decide) ?_
    rw [step_of_open hopen]
    rfl
  have hvalue : Leads .pairs e.2.toList { done := s, key := e.1, depth := 1 }
      { done := s, key := e.1, depth := 1, field := e.2 } := by
    have h : Leads .pairs e.2.toList { done := s, key := e.1, depth := 1 } _ :=
      leads_of_balanced hv (fun c hc => hbreak c (by simp [entryText, hc])) hopen fun _ =>
        Nat.one_pos
    simpa [collect] using h
  have hclosing : Leads .pairs [')'] { done := s, key := e.1, depth := 1, field := e.2 }
      { done := s.addBracketed e.1 e.2 } := by
    refine Leads.of_step (by decide) (by decide) ?_
    rw [step_of_open hopen]
    rfl
  have hend := hvalue.trans hclosing fun _ => by simp
  have hrest := hopening.trans hend fun h => by simp at h
  have hentry := hkey.trans hrest fun _ => by simp
  rwa [List.singleton_append] at hentry

theorem leads_comma (hopen : s.closed = false) :
    Leads .pairs [','] { done := s } { done := s } := by
  refine Leads.of_step (by decide) (by decide) ?_
  rw [step_of_open hopen]
  rfl

/-- **The scanner adds entries one by one.** -/
theorem leads_entries {entries : List (String × String)}
    (h : ∀ e ∈ entries, Flat e.1.toList ∧ Balanced e.2.toList)
    (hbreak : ∀ e ∈ entries, ∀ c ∈ entryText e, isLineBreak c = false) (hopen : s.closed = false) :
    Leads .pairs ([','].intercalate (entries.map entryText)) { done := s }
      { done := s.addEntries entries } := by
  induction entries generalizing s with
  | nil =>
    rw [List.map_nil, List.intercalate_nil, Scan.addEntries_nil]
    exact Leads.refl _ _
  | cons e entries ih =>
    obtain ⟨⟨hk, hv⟩, hrest⟩ := List.forall_mem_cons.mp h
    obtain ⟨hbreak, hbreaks⟩ := List.forall_mem_cons.mp hbreak
    have hentry := leads_entryText hk hv hbreak hopen
    have hopen' : (s.addBracketed e.1 e.2).closed = false := by rw [Scan.closed_addBracketed, hopen]
    rw [Scan.addEntries_cons]
    cases entries with
    | nil =>
      rw [List.map_cons, List.map_nil, List.intercalate_singleton, Scan.addEntries_nil]
      exact hentry
    | cons e' entries =>
      have hmore := (leads_comma hopen').trans (ih hrest hbreaks hopen') (fun h => by simp at h)
      rw [List.map_cons, List.map_cons, List.intercalate_cons_cons, List.append_assoc]
      exact hentry.trans hmore fun _ => by simp

/-- **Over the text of a bag** the scanner collects the bag. -/
theorem leads_printable {entries : List (String × String)} (h : Printable .pairs ⟨entries⟩)
    (hbreak : ∀ e ∈ entries, ∀ c ∈ entryText e, isLineBreak c = false) :
    Leads .pairs (Bag.toPayload ⟨entries⟩).toList {} { done := { attributes := ⟨entries⟩ } } := by
  obtain ⟨hnodup, hentries⟩ := h
  have hadd : ({} : Scan).addEntries entries = { attributes := ⟨entries⟩ } :=
    Scan.addEntries_of_printable hnodup hentries
  rw [toList_toPayload, ← hadd]
  exact leads_entries (fun e he => ⟨(hentries e he).1.flat, (hentries e he).2.balanced⟩) hbreak rfl

end Place

/-! ## Payloads -/

theorem Scan.addField_empty (reading : Reading) (s : Scan) : s.addField reading "" = s := by
  rw [addField.eq_def]
  exact if_pos rfl

theorem Scan.addField_verbatim {field : String} (htrimmed : Text.trimmed field = field)
    (hne : field ≠ "") (s : Scan) :
    s.addField .verbatim field = { s with attributes := s.attributes.insert otherKey field } := by
  rw [addField.eq_def]
  dsimp only
  rw [htrimmed, if_neg hne]

namespace Place

variable {reading : Reading} {p : Place}

/-- The place after the bracket that closes the payload, which ends its last field. -/
def close (reading : Reading) (p : Place) : Place :=
  { p.endField reading with done.closed := true }

theorem close_eq (reading : Reading) (p : Place) :
    p.close reading =
      { p with done := { p.done.addField reading p.field with closed := true }, field := "" } := by
  rw [close, endField]

@[simp] theorem depth_close : (p.close reading).depth = p.depth := by
  rw [close_eq]

@[simp] theorem closed_close : (p.close reading).done.closed = true := by
  rw [close_eq]

@[simp] theorem trailing_close : (p.close reading).done.trailing = p.done.trailing := by
  rw [close_eq]
  exact Scan.trailing_addField p.done reading p.field

theorem leads_closing (hdepth : p.depth = 0) (hopen : p.done.closed = false) :
    Leads reading [')'] p (p.close reading) := by
  refine Leads.of_step (by decide) (by decide) ?_
  rw [step_of_open hopen]
  show Except.ok (p.closeBracket reading ')') = _
  rw [closeBracket, hdepth]
  rfl

/-- A blank directly after the payload is passed over. -/
theorem leads_blank (hclosed : p.done.closed = true) (htrailing : p.done.trailing = "") :
    Leads reading [' '] p p := by
  refine Leads.of_step (by decide) (by decide) ?_
  rw [step, if_pos hclosed, beyond, htrailing]
  rfl

/-- What a payload holds that ends with its closing bracket. -/
theorem Leads.scan_closed_eq {text : List Char} (h : Leads reading text {} p) (hdepth : p.depth = 0)
    (hopen : p.done.closed = false) (htrailing : p.done.trailing = "") :
    scan reading (String.ofList (text ++ [')', ' ', '\n'])) = .ok (p.close reading).done := by
  have hclosing : Leads reading [')'] p (p.close reading) := leads_closing hdepth hopen
  have hblank : Leads reading [' '] (p.close reading) (p.close reading) :=
    leads_blank closed_close (by rw [trailing_close, htrailing])
  have hend := hblank.trans (Leads.of_lineBreak (c := '\n') rfl) fun h => by simp at h
  have hrest := hclosing.trans hend fun h => by simp at h
  have hwhole := h.trans hrest fun _ => by simp
  exact hwhole.scan_eq (by rw [depth_close, hdepth]) closed_close

end Place

/-- **A printed payload is read back**, with the blank and the line feed that a script writes after
its closing bracket. -/
theorem scan_printed {reading : Reading} {bag : Bag} (h : Printable reading bag)
    (hbreak : ∀ c ∈ (printed reading bag).toList, isLineBreak c = false) :
    scan reading (String.ofList ((printed reading bag).toList ++ [')', ' ', '\n'])) =
      .ok { attributes := bag, closed := true } := by
  match reading, bag, h with
  | .pairs, ⟨entries⟩, h =>
    have hleads : Place.Leads .pairs _ {} _ := Place.leads_printable h fun e he c hc => by
      refine hbreak c ?_
      rw [printed, toList_toPayload]
      exact (Text.isInfix_intercalate (List.mem_map_of_mem he)).subset hc
    rw [printed, hleads.scan_closed_eq rfl rfl rfl, Place.close_eq, Scan.addField_empty]
  | .verbatim, ⟨[]⟩, _ =>
    have hleads := Place.Leads.refl .verbatim {}
    rw [show printed .verbatim ⟨[]⟩ = "" from rfl, String.toList_empty,
      hleads.scan_closed_eq rfl rfl rfl, Place.close_eq, Scan.addField_empty]
  | .verbatim, ⟨[(key, text)]⟩, h =>
    obtain ⟨rfl, hne, htrimmed, hbalanced⟩ := h
    have hleads : Place.Leads .verbatim text.toList {} _ :=
      Place.leads_of_balanced hbalanced hbreak rfl fun h => nomatch h
    rw [show printed .verbatim ⟨[(otherKey, text)]⟩ = text from rfl,
      hleads.scan_closed_eq rfl rfl rfl]
    have hfield : (({} : Place).collect text.toList 0).field = text := by simp [Place.collect]
    rw [Place.close_eq, hfield, Scan.addField_verbatim htrimmed hne]
    rfl

end Payload

end FlowDoc
