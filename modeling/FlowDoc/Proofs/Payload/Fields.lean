import FlowDoc.Proofs.Payload.Division

/-!
# The fields of a payload

The scanner goes over a payload once and never holds more than a field. What it collects can be told
in two steps instead: the text before the closing bracket of the node is divided at the commas
outside brackets, each field at the brackets that stand outside others, and the parts are then read
as keys and values.

## Main definitions

* `fieldEntries`: the entries that a field stands for
* `Scan.addParts`: reads a field in parts
* `Place.outcome`, `Place.bag`: what a place leads to, with the text that is still to be read

## Main results

* `Bag.forall_mem_insertAll`: what holds of the entries of a bag
* `Place.outcome_within`: reading a character does not change what a place leads to
* `Place.done_endField_eq`: what the scanner reads is what is read of the parts
* `scan_fields`: the bag of a payload is that of its fields
-/

namespace FlowDoc

namespace Bag

/-- A bag with more pairs, inserted one by one. -/
def insertAll (bag : Bag) (pairs : List (String × String)) : Bag :=
  pairs.foldl (fun bag (key, value) => bag.insert key value) bag

variable {bag : Bag} {pairs : List (String × String)}

theorem ofList_eq_insertAll (pairs : List (String × String)) :
    ofList pairs = empty.insertAll pairs := rfl

theorem insertAll_append (bag : Bag) (pairs pairs' : List (String × String)) :
    bag.insertAll (pairs ++ pairs') = (bag.insertAll pairs).insertAll pairs' :=
  List.foldl_append

theorem nodup_insertAll (h : (bag.entries.map (·.1)).Nodup) :
    ((bag.insertAll pairs).entries.map (·.1)).Nodup := by
  induction pairs generalizing bag with
  | nil => exact h
  | cons e pairs ih => exact ih (nodup_insert h e.1 e.2)

/-- What holds of the entries of a bag and of the pairs that are inserted holds of the entries of
the new bag, if it is kept where values are joined under `other`. -/
theorem forall_mem_insertAll {P : String × String → Prop} (hbag : ∀ e ∈ bag.entries, P e)
    (hpairs : ∀ e ∈ pairs, P e)
    (hjoin : ∀ former value, P (otherKey, former) → P (otherKey, value) →
      P (otherKey, former ++ ", " ++ value)) :
    ∀ e ∈ (bag.insertAll pairs).entries, P e := by
  induction pairs generalizing bag with
  | nil => exact hbag
  | cons pair pairs ih =>
    obtain ⟨hpair, hrest⟩ := List.forall_mem_cons.mp hpairs
    refine @ih (bag.insert pair.1 pair.2) (fun e he => ?_) hrest
    rcases mem_insertEntry he with he | rfl | ⟨former, hformer, hother, rfl⟩
    · exact hbag e he
    · exact hpair
    · have hvalue : P (otherKey, pair.2) := hother ▸ hpair
      rw [hother] at hformer ⊢
      exact hjoin former pair.2 (hbag _ hformer) hvalue

end Bag

namespace Payload

/-! ## Reading the parts -/

/-- The pair of a bracket: the text before it without colons at its end, or `other` where nothing is
left of it, and the text inside it. -/
def groupEntry (before inside : List Char) : String × String :=
  let key := Text.trim ((Text.trim before).rdropWhile (· == ':'))
  (if key = [] then otherKey else String.ofList key, String.ofList (Text.trim inside))

/-- The pair of a text without brackets, unless it is blank: what stands before and after its only
colon, or the whole text under `other`. -/
def textEntries (text : List Char) : List (String × String) :=
  if Text.blank text then []
  else
    match (Text.trim text).splitOn ':' with
    | [key, value] =>
      if Text.blank key then [(otherKey, String.ofList (Text.trim text))]
      else [(String.ofList (Text.trim key), String.ofList (Text.trim value))]
    | _ => [(otherKey, String.ofList (Text.trim text))]

/-- The entries of a field: those of its brackets, and that of the text after the last one. -/
def fieldEntries : List (List Char) → List (String × String)
  | before :: inside :: rest => groupEntry before inside :: fieldEntries rest
  | [text] => textEntries text
  | [] => []

/-! ## Entries of the scanner -/

/-- A field without brackets is cut at its colon when it has only one. -/
theorem fieldEntry_eq (field : String) :
    fieldEntry field =
      match field.toList.splitOn ':' with
      | [key, value] =>
        if Text.blank key then (otherKey, field)
        else (String.ofList (Text.trim key), String.ofList (Text.trim value))
      | _ => (otherKey, field) := by
  rw [fieldEntry]
  cases hcut : Text.cut [':'] field.toList with
  | none =>
    have hcolon : ':' ∉ field.toList := by
      intro hmem
      obtain ⟨before, after, h⟩ := List.append_of_mem hmem
      exact Text.cut_eq_none_iff.mp hcut before after (by simpa using h)
    rw [List.splitOn_eq_singleton hcolon]
  | some halves =>
    obtain ⟨key, value⟩ := halves
    have hkey : field.toList.splitOn ':' = key :: value.splitOn ':' := by
      rw [Text.append_eq_of_cut hcut, List.append_assoc, List.singleton_append,
        List.splitOn_append_cons_self_of_not_mem (Text.not_mem_of_cut_singleton hcut)]
    rw [hkey]
    dsimp only
    by_cases hvalue : ':' ∈ value
    · -- A second colon divides the value.
      obtain ⟨before, after, rfl, hbefore⟩ := List.eq_append_cons_of_mem hvalue
      obtain ⟨part, parts, hparts⟩ := List.exists_cons_of_ne_nil (List.splitOn_ne_nil ':' after)
      rw [if_pos (by simp), List.splitOn_append_cons_self_of_not_mem hbefore, hparts]
    · rw [List.splitOn_eq_singleton hvalue]
      simp [hvalue]

theorem trimmed_eq_empty_iff {text : String} :
    Text.trimmed text = "" ↔ Text.blank text.toList = true := by
  rw [Text.trimmed, ← String.toList_inj, String.toList_ofList, String.toList_empty,
    Text.trim_eq_nil_iff, Text.blank, List.all_eq_true]

theorem textEntries_eq (text : String) :
    textEntries text.toList =
      if Text.trimmed text = "" then [] else [fieldEntry (Text.trimmed text)] := by
  rw [textEntries, fieldEntry_eq, Text.toList_trimmed, ← Text.trimmed]
  simp only [trimmed_eq_empty_iff]
  split
  · rfl
  · split
    · split
      · rfl
      · rfl
    · rfl

theorem attributes_addField (s : Scan) (field : String) :
    (s.addField .pairs field).attributes = s.attributes.insertAll (textEntries field.toList) := by
  rw [textEntries_eq, Scan.addField.eq_def]
  dsimp only
  generalize fieldEntry (Text.trimmed field) = entry
  split
  · rfl
  · rfl

theorem attributes_addBracketed (s : Scan) (key value : String) :
    (s.addBracketed key value).attributes =
      s.attributes.insertAll [groupEntry key.toList value.toList] := by
  have hempty : bracketKey key = "" ↔
      Text.trim ((Text.trim key.toList).rdropWhile (· == ':')) = [] := by
    rw [← String.toList_inj, toList_bracketKey, String.toList_empty]
    rfl
  rw [Scan.addBracketed, groupEntry]
  by_cases h : bracketKey key = ""
  · rw [if_pos h, if_pos (hempty.mp h)]
    rfl
  · rw [if_neg h, if_neg (hempty.not.mp h)]
    rfl

/-! ## Dividing a text character by character -/

/-- A bracket that stands outside others divides the first field. -/
theorem fields_cons_of_bounds {depth : Int} {m : Marked}
    (h : boundsGroup (m, depth) = true) (ms : List Marked) :
    fields depth (m :: ms) = (fields (depth + m.rise) ms).modifyHead ([] :: ·) := by
  have hends : endsField (m, depth) = false := by
    rw [boundsGroup, Bool.or_eq_true, Bool.and_eq_true, Bool.and_eq_true] at h
    rcases h with ⟨hopens, -⟩ | ⟨hcloses, -⟩
    · rw [endsField, Marked.separates_eq_false_of_opens hopens, Bool.false_and]
    · rw [endsField, Marked.separates_eq_false_of_closes hcloses, Bool.false_and]
  rw [fields_cons, hends, h]
  rfl

/-- There is a field, and it has a part. -/
theorem exists_fields (depth : Int) (ms : List Marked) :
    ∃ part parts rest, fields depth ms = (part :: parts) :: rest := by
  obtain ⟨first, rest, h⟩ := List.exists_cons_of_ne_nil
    (List.splitOnP_ne_nil endsField (leveled depth ms))
  obtain ⟨part, others, h'⟩ := List.exists_cons_of_ne_nil (List.splitOnP_ne_nil boundsGroup first)
  exact ⟨_, _, _, by rw [fields, h, List.map_cons, parts, h', List.map_cons]⟩

/-- What stands before and after a bracket that stands outside others. -/
theorem exists_fields_of_bounds {depth depth' : Int} {m : Marked}
    (h : boundsGroup (m, depth) = true) (hdepth : depth' = depth + m.rise) (ms : List Marked) :
    ∃ part parts rest, fields depth' ms = (part :: parts) :: rest ∧
      fields depth (m :: ms) = ([] :: part :: parts) :: rest := by
  obtain ⟨part, parts, rest, hfields⟩ := exists_fields depth' ms
  refine ⟨part, parts, rest, hfields, ?_⟩
  rw [fields_cons_of_bounds h, ← hdepth, hfields]
  rfl

/-! ## Reading a text that is divided -/

namespace Scan

/-- Reads a field in parts: its brackets, and the text after the last one. -/
def addParts : Scan → List (List Char) → Scan
  | s, before :: inside :: rest =>
    (s.addBracketed (String.ofList before) (String.ofList inside)).addParts rest
  | s, [text] => s.addField .pairs (String.ofList text)
  | s, [] => s

theorem attributes_addParts (s : Scan) (field : List (List Char)) :
    (s.addParts field).attributes = s.attributes.insertAll (fieldEntries field) := by
  fun_induction addParts s field with
  | case1 s before inside rest ih =>
    rw [ih, attributes_addBracketed, String.toList_ofList, String.toList_ofList,
      ← Bag.insertAll_append]
    rfl
  | case2 s text =>
    rw [attributes_addField, String.toList_ofList]
    rfl
  | case3 s => rfl

theorem attributes_foldl_addParts (s : Scan) (fields : List (List (List Char))) :
    (fields.foldl addParts s).attributes =
      s.attributes.insertAll (fields.flatMap fieldEntries) := by
  induction fields generalizing s with
  | nil => rfl
  | cons field fields ih =>
    rw [List.foldl_cons, ih, attributes_addParts, ← Bag.insertAll_append, List.flatMap_cons]

end Scan

/-! ## What a place leads to -/

namespace Place

/-- The field in hand with the parts that are still to come. -/
def resume (p : Place) (field : List (List Char)) : List (List Char) :=
  let field := field.modifyHead (p.field.toList ++ ·)
  if p.depth = 0 then field else p.key.toList :: field

/-- What is read once a place has come to the end of a text. -/
def outcome (p : Place) (rest : List Marked) : Scan :=
  ((fields p.depth rest).modifyHead p.resume).foldl Scan.addParts p.done

/-- The bag that a place leads to when a text is still to be read. -/
def bag (p : Place) (rest : List Marked) : Bag :=
  p.done.attributes.insertAll
    (((fields p.depth rest).modifyHead p.resume).flatMap fieldEntries)

variable {p p' : Place} {depth : Nat} {m : Marked} {ms : List Marked}

theorem attributes_outcome (p : Place) (rest : List Marked) :
    (p.outcome rest).attributes = p.bag rest :=
  Scan.attributes_foldl_addParts _ _

theorem outcome_eq {field : List (List Char)} {rest : List (List (List Char))}
    (h : fields p.depth ms = field :: rest) :
    p.outcome ms = rest.foldl Scan.addParts (p.done.addParts (p.resume field)) := by
  rw [outcome, h, List.modifyHead_cons, List.foldl_cons]

theorem addParts_singleton (s : Scan) (text : String) :
    s.addParts [text.toList] = s.addField .pairs text := by
  rw [Scan.addParts, String.ofList_toList]

/-- At the end of a payload the field in hand is the last one. -/
theorem outcome_nil (h : p.depth = 0) : p.outcome [] = (p.endField .pairs).done := by
  have hfields : fields p.depth [] = [[[]]] := rfl
  have hresume : p.resume [[]] = [p.field.toList] := by simp [resume, h]
  rw [outcome_eq hfields, hresume, addParts_singleton]
  rfl

/-- A character that belongs to the part in hand. -/
theorem outcome_collect (hends : endsField (m, (p.depth : Int)) = false)
    (hbounds : boundsGroup (m, (p.depth : Int)) = false) (hdepth : (depth : Int) = p.depth + m.rise)
    (hzero : depth = 0 ↔ p.depth = 0) (ms : List Marked) :
    (p.collect [m.char] depth).outcome ms = p.outcome (m :: ms) := by
  obtain ⟨part, parts, rest, hfields⟩ := exists_fields depth ms
  have hcons : fields p.depth (m :: ms) = ((m.char :: part) :: parts) :: rest := by
    rw [fields_cons, hends, hbounds, ← hdepth, hfields]
    rfl
  have hresume : (p.collect [m.char] depth).resume (part :: parts) =
      p.resume ((m.char :: part) :: parts) := by
    simp [resume, collect, hzero]
  have hcollect := outcome_eq (p := p.collect [m.char] depth) hfields
  rw [hcollect, outcome_eq hcons, hresume]
  rfl

/-- A comma outside brackets ends the field in hand. -/
theorem outcome_endField (hm : m.separates = true) (hrise : m.rise = 0) (hp : p.depth = 0)
    (ms : List Marked) : (p.endField .pairs).outcome ms = p.outcome (m :: ms) := by
  obtain ⟨part, parts, rest, hfields⟩ := exists_fields p.depth ms
  have hends : endsField (m, (p.depth : Int)) = true := by simp [endsField, hm, hp]
  have hcons : fields p.depth (m :: ms) = [[]] :: (part :: parts) :: rest := by
    rw [fields_cons, hends, hrise, Int.add_zero, hfields]
    rfl
  have hsame : fields (p.endField .pairs).depth ms = (part :: parts) :: rest := by
    rw [depth_endField, hfields]
  have hresume : (p.endField .pairs).resume (part :: parts) = part :: parts := by
    simp [resume, endField, hp]
  have htext : p.resume [[]] = [p.field.toList] := by simp [resume, hp]
  rw [outcome_eq hsame, outcome_eq hcons, hresume, htext, addParts_singleton, List.foldl_cons]
  rfl

/-- An opening bracket outside others divides the field in hand. -/
theorem outcome_openBracket (hm : m.opens = true) (hp : p.depth = 0) (ms : List Marked) :
    (p.openBracket .pairs m.char).outcome ms = p.outcome (m :: ms) := by
  have hbounds : boundsGroup (m, (p.depth : Int)) = true := by simp [boundsGroup, hm, hp]
  have hdepth : ((1 : Nat) : Int) = p.depth + m.rise := by
    rw [hp, Marked.rise_of_opens hm]
    rfl
  obtain ⟨part, parts, rest, hfields, hcons⟩ := exists_fields_of_bounds hbounds hdepth ms
  have hopened : p.openBracket .pairs m.char =
      { p with key := p.field, field := "", depth := 1 } := by
    rw [openBracket, if_pos ⟨hp, rfl⟩]
  have houtcome := outcome_eq (p := { p with key := p.field, field := "", depth := 1 }) hfields
  rw [hopened, houtcome, outcome_eq hcons]
  simp [resume, hp]

/-- A closing bracket outside others completes a pair. -/
theorem outcome_closeBracket (hm : m.closes = true) (hp : p.depth = 1) (ms : List Marked) :
    (p.closeBracket .pairs m.char).outcome ms = p.outcome (m :: ms) := by
  have hbounds : boundsGroup (m, (p.depth : Int)) = true := by simp [boundsGroup, hm, hp]
  have hdepth : ((0 : Nat) : Int) = p.depth + m.rise := by
    rw [hp, Marked.rise_of_closes hm]
    rfl
  obtain ⟨part, parts, rest, hfields, hcons⟩ := exists_fields_of_bounds hbounds hdepth ms
  have hclosed : p.closeBracket .pairs m.char =
      { p with depth := 0, done := p.done.addBracketed p.key p.field, key := "", field := "" } := by
    rw [closeBracket, hp]
    exact if_pos ⟨rfl, rfl⟩
  have houtcome := outcome_eq (p := { p with
    depth := 0, done := p.done.addBracketed p.key p.field, key := "", field := "" }) hfields
  have hresume : p.resume ([] :: part :: parts) =
      p.key.toList :: p.field.toList :: part :: parts := by
    simp [resume, hp]
  rw [hclosed, houtcome, outcome_eq hcons, hresume, Scan.addParts, String.ofList_toList,
    String.ofList_toList]
  simp [resume]

/-- **Reading a character does not change what a place leads to.** -/
theorem outcome_within (h : depthStep? p.depth m = some depth) (ms : List Marked) :
    (p.within .pairs m).outcome ms = p.outcome (m :: ms) := by
  have hdepth := cast_of_depthStep? h
  rw [depthStep?_eq] at h
  rw [within_eq]
  split_ifs at h ⊢ with hopens hcloses hzero hcomma
  -- A bracket divides the field where it stands outside others, and belongs to the part elsewhere.
  · obtain rfl := Option.some.inj h
    by_cases hp : p.depth = 0
    · exact outcome_openBracket hopens hp ms
    · have hends : endsField (m, (p.depth : Int)) = false := by simp [endsField, hp]
      have hbounds : boundsGroup (m, (p.depth : Int)) = false := by
        simp [boundsGroup, hp, Marked.closes_eq_false_of_opens hopens]
      rw [openBracket_of_inside fun _ => Nat.pos_of_ne_zero hp]
      exact outcome_collect hends hbounds hdepth (by omega) ms
  · obtain rfl := Option.some.inj h
    obtain ⟨outer, hp⟩ := Nat.exists_eq_succ_of_ne_zero hzero
    by_cases houter : outer = 0
    · exact outcome_closeBracket hcloses (by omega) ms
    · have hends : endsField (m, (p.depth : Int)) = false := by simp [endsField, hp]; omega
      have hbounds : boundsGroup (m, (p.depth : Int)) = false := by
        simp [boundsGroup, hopens, hp]; omega
      rw [closeBracket_of_inside hp fun _ => Nat.pos_of_ne_zero houter]
      exact outcome_collect hends hbounds (by omega) (by omega) ms
  -- A comma ends the field outside brackets alone, and what is left is a character of the part.
  · obtain rfl := Option.some.inj h
    exact outcome_endField hcomma.1 (by omega) hcomma.2.1 ms
  · obtain rfl := Option.some.inj h
    have hends : endsField (m, (p.depth : Int)) = false := by
      simp [endsField]; simpa using hcomma
    have hbounds : boundsGroup (m, (p.depth : Int)) = false := by
      simp [boundsGroup, hopens, hcloses]
    rw [push_eq_collect]
    exact outcome_collect hends hbounds hdepth Iff.rfl ms

/-- What comes of a text without fault. -/
theorem outcome_run (hp : p.Open depth) {depth' : Nat} (hms : depthAfter? depth ms = some depth')
    (hrun : ms.foldlM (step .pairs) p = .ok p') : p'.outcome [] = p.outcome ms := by
  induction ms generalizing p depth with
  | nil =>
    cases hrun
    rfl
  | cons m ms ih =>
    obtain ⟨inner, hstep, hrest⟩ := Option.bind_eq_some_iff.mp hms
    rw [foldlM_cons_of_ok (step_of_open hp.closed_eq m)] at hrun
    rw [ih (hp.within hstep) hrest hrun]
    exact outcome_within (hp.depth_eq.symm ▸ hstep) ms

/-- From the start of a text all its fields are still to come. -/
theorem outcome_start (ms : List Marked) :
    ({} : Place).outcome ms = (fields 0 ms).foldl Scan.addParts {} := by
  obtain ⟨part, parts, rest, hfields⟩ := exists_fields 0 ms
  have houtcome := outcome_eq (p := {}) hfields
  rw [houtcome, hfields]
  rfl

/-- A text that closes the brackets that it opens is read as if it were divided first. -/
theorem done_endField_eq {content : List Marked} (hp : p.Open 0)
    (hcontent : depthAfter? 0 content = some 0)
    (hrun : content.foldlM (step .pairs) {} = .ok p) :
    (p.endField .pairs).done = (fields 0 content).foldl Scan.addParts {} := by
  rw [← outcome_nil hp.depth_eq, outcome_run Open.start hcontent hrun, outcome_start]

/-! ### The bag -/

theorem bag_nil (h : p.depth = 0) : p.bag [] = (p.endField .pairs).done.attributes := by
  rw [← attributes_outcome, outcome_nil h]

/-- The bag that comes of a text without fault. -/
theorem bag_run (hp : p.Open depth) {depth' : Nat} (hms : depthAfter? depth ms = some depth')
    (hrun : ms.foldlM (step .pairs) p = .ok p') : p'.bag [] = p.bag ms := by
  rw [← attributes_outcome, outcome_run hp hms hrun, attributes_outcome]

theorem bag_start (ms : List Marked) :
    ({} : Place).bag ms = Bag.ofList ((fields 0 ms).flatMap fieldEntries) := by
  rw [← attributes_outcome, outcome_start, Scan.attributes_foldl_addParts]
  rfl

end Place

/-! ## Whole payloads -/

/-- The text of a payload before the closing bracket of the node, or all of it where there is no
such bracket. -/
def IsContent (ms text : List Marked) : Prop :=
  (∃ close after, NodeClose ms text close after) ∨ (text = ms ∧ ¬ ClosesNode ms)

theorem last_eq_of_scan {reading : Reading} {content : String} {ms : List Marked} {last : Literal}
    {s : Scan} (h : scan reading content = .ok s) (hspans : Spans content.toList ms last) :
    last = .outside := by
  rw [scan_eq reading hspans] at h
  obtain ⟨p, -, hfinish⟩ := bind_eq_ok_iff.mp h
  cases last with
  | outside => rfl
  | quote escaped => cases hfinish
  | comment => cases hfinish

/-- A payload that closes its node: the closing bracket ends the field in hand, and only the text
after it is still collected. -/
theorem scan_eq_of_nodeClose {reading : Reading} {content : String}
    {ms before after : List Marked} {close : Marked} {s : Scan} (h : scan reading content = .ok s)
    (hspans : Spans content.toList ms .outside) (hclose : NodeClose ms before close after) :
    ∃ p : Place, before.foldlM (Place.step reading) {} = .ok p ∧ p.Open 0 ∧
      s = { (p.endField reading).done with
        closed := true, trailing := Place.trailingAfter "" after } := by
  obtain ⟨rfl, hcloses, hdepth⟩ := nodeClose_iff.mp hclose
  obtain ⟨p, hrun, hp⟩ := Place.Open.start.run reading hdepth
  refine ⟨p, hrun, hp, ?_⟩
  -- The payload was read, so no closing bracket follows the one of the node.
  have hshut := hp.shut reading hcloses
  have hafter := hclose.find?_eq_none fun extra hextra => by
    rw [scan_of_extraClose reading hspans hextra] at h
    cases h
  rw [scan_eq reading hspans, foldlM_append_of_ok hrun,
    foldlM_cons_of_ok (Place.step_of_open hp.closed_eq close), hshut.run hafter] at h
  obtain ⟨q, hq, hfinish⟩ := bind_eq_ok_iff.mp h
  obtain rfl := Except.ok.inj hq
  rw [(hshut.trail _).finish_eq] at hfinish
  rw [← Except.ok.inj hfinish]
  simp only [hp.closeNode_eq reading hcloses]

/-- A payload that does not close its node: its end ends the field in hand. -/
theorem scan_eq_of_open {reading : Reading} {content : String} {ms : List Marked} {s : Scan}
    (h : scan reading content = .ok s) (hspans : Spans content.toList ms .outside)
    (hopen : ¬ ClosesNode ms) :
    ∃ p : Place, depthAfter? 0 ms = some 0 ∧ ms.foldlM (Place.step reading) {} = .ok p ∧
      p.Open 0 ∧ s = (p.endField reading).done := by
  obtain ⟨depth, hdepth, -⟩ := exists_depthAfter?_of_open hopen
  obtain ⟨p, hrun, hp⟩ := Place.Open.start.run reading hdepth
  have hfinish : p.finish reading .outside = .ok s := by rwa [scan_eq reading hspans, hrun] at h
  rw [hp.finish_eq] at hfinish
  split_ifs at hfinish with hpos
  obtain rfl : depth = 0 := by omega
  exact ⟨p, hdepth, hrun, hp, (Except.ok.inj hfinish).symm⟩

/-- The bag of a payload is complete once its content and the field in hand then have been read. -/
theorem exists_run_content {reading : Reading} {content : String} {ms text : List Marked} {s : Scan}
    (h : scan reading content = .ok s) (hspans : Spans content.toList ms .outside)
    (htext : IsContent ms text) :
    ∃ p : Place, depthAfter? 0 text = some 0 ∧ text.foldlM (Place.step reading) {} = .ok p ∧
      p.Open 0 ∧ s.attributes = (p.endField reading).done.attributes := by
  rcases htext with ⟨close, after, hclose⟩ | ⟨rfl, hopen⟩
  · obtain ⟨p, hrun, hp, rfl⟩ := scan_eq_of_nodeClose h hspans hclose
    exact ⟨p, (nodeClose_iff.mp hclose).2.2, hrun, hp, rfl⟩
  · obtain ⟨p, hdepth, hrun, hp, rfl⟩ := scan_eq_of_open h hspans hopen
    exact ⟨p, hdepth, hrun, hp, rfl⟩

/-- **A payload is read as if it were divided first**, whatever the node type unless it is that of
filters. Of the text before the closing bracket of the node each field stands for a pair for each of
its outermost brackets, all of which are closed, and for one more where the text after the last
bracket is not blank, and the bag holds these pairs, inserted in order. -/
theorem scan_fields {nodeType content : String} {s : Scan} (hpairs : nodeType ≠ filterKeyword)
    (h : scan (.ofType nodeType) content = .ok s) :
    ∃ ms, Spans content.toList ms .outside ∧
      (∀ ms' last, Spans content.toList ms' last → ms' = ms) ∧
      ∀ text, IsContent ms text →
        (∀ field ∈ fields 0 text, field.length % 2 = 1) ∧
        s.attributes = Bag.ofList ((fields 0 text).flatMap fieldEntries) := by
  have hreading : Reading.ofType nodeType = .pairs := if_neg hpairs
  rw [hreading] at h
  obtain ⟨ms, last, hspans⟩ := exists_spans content.toList
  obtain rfl := last_eq_of_scan h hspans
  refine ⟨ms, hspans, fun ms' last hspans' => ?_, fun text htext => ?_⟩
  · exact (Prod.mk.inj (hspans'.mark_eq.symm.trans hspans.mark_eq)).1
  · obtain ⟨p, hdepth, hrun, hp, hbag⟩ := exists_run_content h hspans htext
    obtain ⟨field, rest, hfields, hfield, hodd⟩ := odd_length_fields hdepth
    refine ⟨?_, ?_⟩
    · rw [show fields 0 text = field :: rest from hfields]
      exact List.forall_mem_cons.mpr ⟨hfield.mp rfl, hodd⟩
    · rw [hbag, ← Place.bag_nil hp.depth_eq, Place.bag_run Place.Open.start hdepth hrun,
        Place.bag_start]

/-- A payload with a field of each kind, up to its closing bracket. -/
def mixedContent : String :=
  "output(id (as) integer), format: 'a, b', [x], y: z: w"

theorem scan_fields_mixedContent :
    "source" ≠ filterKeyword ∧
      scan (.ofType "source") (mixedContent ++ ") ,") =
        .ok
          { attributes :=
              ⟨[("output", "id (as) integer"), ("format", "'a, b'"), ("other", "x, y: z: w")]⟩
            closed := true
            trailing := ","
            keyless := ["x"] } ∧
      (fields 0 (mark .outside mixedContent.toList).1).map (·.map String.ofList) =
        [["output", "id (as) integer", ""], [" format: 'a, b'"], [" ", "x", ""], [" y: z: w"]] ∧
      (⟨[("output", "id (as) integer"), ("format", "'a, b'"), ("other", "x, y: z: w")]⟩ : Bag) =
        Bag.ofList ((fields 0 (mark .outside mixedContent.toList).1).flatMap fieldEntries) := by
  have hpairs : "source" ≠ filterKeyword := by decide
  have hscan : scan (.ofType "source") (mixedContent ++ ") ,") =
      .ok
        { attributes :=
            ⟨[("output", "id (as) integer"), ("format", "'a, b'"), ("other", "x, y: z: w")]⟩
          closed := true
          trailing := ","
          keyless := ["x"] } := by
    decide +kernel
  refine ⟨hpairs, hscan, by decide +kernel, ?_⟩
  obtain ⟨ms, hspans, -, hfields⟩ := scan_fields hpairs hscan
  -- The content ends where the bracket closes the node.
  have hms : ms = (mark .outside (mixedContent ++ ") ,").toList).1 := by rw [hspans.mark_eq]
  have hclose : NodeClose ms (mark .outside mixedContent.toList).1 ⟨')', false⟩
      [⟨' ', false⟩, ⟨',', false⟩] :=
    nodeClose_iff.mpr ⟨hms.trans (by decide +kernel), rfl, by decide +kernel⟩
  exact (hfields _ (.inl ⟨_, _, hclose⟩)).2

end Payload

end FlowDoc
