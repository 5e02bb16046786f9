import FlowDoc.Proofs.Payload.Literals

/-!
# Reading a bag again

What was read as the attributes of a node can be printed as a payload and read again. The bag is the
same then, as far as its keys and values allow it: a key has to close its literal spans, which it
always does unless it comes of a colon inside one, and it must not end with a colon, which would be
taken off again; values have to be trimmed, which those that were joined under `other` need not be.

## Main results

* `Legible.printable`: entries that are read back from their text
* `attributes_toPayload`: the attributes of a node are read back from their text
* `attributes_toPayload_changed`: attributes that are not
-/

namespace FlowDoc.Payload

/-- What a payload holds that does not close its node. -/
theorem Place.Leads.scan_open_eq {reading : Reading} {text : List Char} {p : Place}
    (h : Leads reading text {} p) (hdepth : p.depth = 0) (hopen : p.done.closed = false) :
    scan reading (String.ofList text) = .ok (p.endField reading).done := by
  rw [h.scan_eq_finish, finish]
  simp [hdepth, hopen]

theorem attributes_eq_ok_iff {nodeType content : String} {bag : Bag} :
    attributes nodeType content = .ok bag ↔
      ∃ s, scan (.ofType nodeType) content = .ok s ∧ s.attributes = bag := by
  rw [attributes, bind_eq_ok_iff]
  exact exists_congr fun s => and_congr_right fun _ => ⟨Except.ok.inj, congrArg _⟩

/-- An entry that the scanner can read is read back from its text. -/
theorem Legible.printable {e : String × String} (h : Legible e)
    (hcolon : e.1.toList.getLast? ≠ some ':')
    (hother : e.1 = otherKey → Text.trimmed e.2 = e.2) : PrintableKey e.1 ∧ PrintableValue e.2 := by
  have htrimmed : Text.trimmed e.2 = e.2 := by
    by_cases hkey : e.1 = otherKey
    · exact hother hkey
    · exact h.value_trimmed hkey
  exact ⟨⟨h.key_ne_empty, h.key_trimmed, hcolon, h.key_flat⟩, ⟨htrimmed, h.value_balanced⟩⟩

/-- **The attributes of a node are read back from their text**, whatever the node type unless it is
that of filters and as long as line breaks keep no comment mark apart, if the keys close their
literal spans and do not end with a colon and what was collected under `other` is trimmed. -/
theorem attributes_toPayload {nodeType content : String} {bag : Bag}
    (hpairs : nodeType ≠ filterKeyword) (hwhole : MarksWhole .outside content.toList)
    (h : attributes nodeType content = .ok bag)
    (hkeys : ∀ e ∈ bag.entries, LiteralClosed e.1.toList ∧ e.1.toList.getLast? ≠ some ':')
    (hother : ∀ value, (otherKey, value) ∈ bag.entries → Text.trimmed value = value) :
    attributes nodeType bag.toPayload = .ok bag := by
  have hreading : Reading.ofType nodeType = .pairs := if_neg hpairs
  obtain ⟨s, hscan, rfl⟩ := attributes_eq_ok_iff.mp h
  rw [hreading] at hscan
  obtain ⟨hnodup, text, -, hentries⟩ := entries_legible hwhole hscan
  -- An entry that is cut inside a literal span has a key that does not close it.
  have hlegible : ∀ e ∈ s.attributes.entries, Legible e := by
    intro e he
    obtain hlegible | ⟨_, _, _, _, hcut⟩ := hentries e he
    · exact hlegible
    · exact absurd (hkeys e he).1 hcut.not_literalClosed
  have hprintable : Printable .pairs s.attributes := by
    refine ⟨hnodup, fun e he => (hlegible e he).printable (hkeys e he).2 fun hkey => ?_⟩
    exact hother e.2 (hkey ▸ he)
  have hleads := Place.leads_printable hprintable fun e he => (hlegible e he).unbroken
  refine attributes_eq_ok_iff.mpr ⟨{ attributes := s.attributes }, ?_, rfl⟩
  rw [hreading, ← String.ofList_toList (s := s.attributes.toPayload), hleads.scan_open_eq rfl rfl]
  rw [Place.endField, Scan.addField_empty]

/-- A payload with literal spans, nested brackets and a line break, and with values under
`other`. -/
def layeredContent : String :=
  "output(id as\n 'a)', f[1, (2)]), /* c, */ d: 'csv', (a, b), w: x: y) rest"

/-- The attributes that it holds. -/
def layeredBag : Bag :=
  ⟨[("output", "id as 'a)', f[1, (2)]"), ("/* c, */ d", "'csv'"), ("other", "a, b, w: x: y")]⟩

theorem attributes_toPayload_layeredContent :
    "derive" ≠ filterKeyword ∧ MarksWhole .outside layeredContent.toList ∧
      attributes "derive" layeredContent = .ok layeredBag ∧
      layeredBag.toPayload =
        "output(id as 'a)', f[1, (2)]),/* c, */ d('csv'),other(a, b, w: x: y)" ∧
      attributes "derive" layeredBag.toPayload = .ok layeredBag := by
  have hpairs : "derive" ≠ filterKeyword := by decide
  have hwhole : MarksWhole .outside layeredContent.toList := by decide +kernel
  have hbag : attributes "derive" layeredContent = .ok layeredBag := by decide +kernel
  refine ⟨hpairs, hwhole, hbag, by decide +kernel, ?_⟩
  refine attributes_toPayload hpairs hwhole hbag (by decide +kernel) fun value hvalue => ?_
  obtain rfl : value = "a, b, w: x: y" := by simpa [layeredBag, otherKey] using hvalue
  decide +kernel

/-- A string that is cut at its colon, a key that loses another colon, a value that loses a blank,
and a comment mark that is made up when a line break goes. -/
theorem attributes_toPayload_changed :
    "derive" ≠ filterKeyword ∧
      attributes "derive" "'a:b'" = .ok ⟨[("'a", "b'")]⟩ ∧
      attributes "derive" (Bag.toPayload ⟨[("'a", "b'")]⟩) = .ok ⟨[("other", "'a(b'")]⟩ ∧
      attributes "derive" "a: :(x)" = .ok ⟨[("a:", "x")]⟩ ∧
      attributes "derive" (Bag.toPayload ⟨[("a:", "x")]⟩) = .ok ⟨[("a", "x")]⟩ ∧
      attributes "derive" "(x), ()" = .ok ⟨[("other", "x, ")]⟩ ∧
      attributes "derive" (Bag.toPayload ⟨[("other", "x, ")]⟩) = .ok ⟨[("other", "x,")]⟩ ∧
      attributes "derive" "/\n*" = .ok ⟨[("other", "/*")]⟩ ∧
      attributes "derive" (Bag.toPayload ⟨[("other", "/*")]⟩) = .error .unterminatedComment := by
  decide +kernel

end FlowDoc.Payload
