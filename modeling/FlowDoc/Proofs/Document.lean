import FlowDoc.Document
import FlowDoc.Proofs.Json.Values

/-!
# Documents in other spellings and orders

The parts of a document are found in its value by lookups, one inside what another one found. Where
keys are told apart by more than their case, each of these lookups meets the same member whatever
the spelling of the keys and the order of the members. So these make no difference to a document;
its descriptions are in the order of the arrays that they stand in, which stays.

## Main results

* `ofJson_respelled`: a document is found in other spellings and orders of its value
* `read_respelled`: so it is in the texts of these
-/

namespace FlowDoc.Document

open Json (Respelled KeysApart Readable)

section Respelled

variable {d d' : Json}

/-- What is made of the items under a key. -/
theorem filterMap_items_respelled {β : Type} {f : Json → Option β}
    (hf : ∀ v v', Respelled v v' → KeysApart v → f v' = f v) (h : Respelled d d')
    (hapart : KeysApart d) (key : String) :
    (((d'.field? key).bind Json.array?).getD []).filterMap f =
      (((d.field? key).bind Json.array?).getD []).filterMap f := by
  rcases h.field? hapart key with ⟨hnone, hnone'⟩ | ⟨v, v', hv, hv', hr⟩
  · rw [hnone, hnone']
  · rw [hv, hv']
    exact hr.filterMap_array? hf (Json.keysApart_of_field? hapart hv)

theorem scriptOf_respelled (h : Respelled d d') (hapart : KeysApart d) :
    scriptOf d' = scriptOf d := by
  have hlines := filterMap_items_respelled (fun _ _ hv _ => hv.string?) h hapart "scriptLines"
  rw [scriptOf, scriptOf, h.stringField? hapart]
  dsimp only
  rw [hlines]

theorem descriptionOf?_respelled (h : Respelled d d') (hapart : KeysApart d) :
    descriptionOf? d' = descriptionOf? d := by
  rw [descriptionOf?, descriptionOf?, h.stringField? hapart, h.stringField? hapart]

theorem descriptionsOf_respelled (h : Respelled d d') (hapart : KeysApart d) :
    descriptionsOf d' = descriptionsOf d := by
  refine List.flatMap_congr fun key _ => ?_
  exact filterMap_items_respelled (fun _ _ => descriptionOf?_respelled) h hapart key

/-- **A document is found in other spellings and orders of its value.** -/
theorem ofJson_respelled (h : Respelled d d') (hapart : KeysApart d) : ofJson d' = ofJson d := by
  have hname := h.stringField? hapart "name"
  rw [ofJson, ofJson, hname]
  rcases h.field? hapart "properties" with ⟨hnone, hnone'⟩ | ⟨p, p', hp, hp', hr⟩
  · rw [hnone, hnone']
  · have hproperties := Json.keysApart_of_field? hapart hp
    rw [hp, hp']
    simp only [Option.bind_some, hr.stringField? hproperties]
    rcases hr.field? hproperties "typeProperties" with ⟨hnone, hnone'⟩ | ⟨t, t', ht, ht', htr⟩
    · rw [hnone, hnone']
    · have htype := Json.keysApart_of_field? hproperties ht
      simp only [ht, ht', Option.map_some, scriptOf_respelled htr htype,
        descriptionsOf_respelled htr htype]

/-- **Spelling and order make no difference to a document**: the same one is found in a value and in
the same value with keys in other cases and members in other orders at any depth, as long as no
object has two keys that differ in case only. So it is read from any two texts of the two values;
and each of them has such texts, on one line and over many, if its numbers are numbers of a text and
nothing is nested too deep. -/
theorem read_respelled (h : Respelled d d') (hapart : KeysApart d) :
    ofJson d' = ofJson d ∧
      (∀ text text', Json.read text = .ok d → Json.read text' = .ok d' →
        read text = .ok (ofJson d) ∧ read text' = read text) ∧
      (Readable 0 d → ∀ text ∈ [d.compact, d.pretty, d'.compact, d'.pretty],
        read text = .ok (ofJson d)) := by
  have hsame := ofJson_respelled h hapart
  refine ⟨hsame, fun text text' htext htext' => ?_, fun hreadable => ?_⟩
  · rw [read, read, htext, htext']
    exact ⟨rfl, congrArg Except.ok hsame⟩
  · -- The texts of a value are read as the value with its members in order.
    have htexts : ∀ {v : Json} {l : Json.Layout}, l.WritesScalars → Respelled d v →
        read (String.ofList (l.write 0 v)) = .ok (ofJson d) := by
      intro v l hl hv
      obtain ⟨e, hread, he⟩ :=
        Json.exists_read_write hl (hv.readable hreadable) (hv.keysApart hapart)
      rw [read, hread, ← ofJson_respelled (hv.trans he) hapart]
      rfl
    have hline := Json.Layout.writesScalars_oneLine
    have hlines := Json.Layout.writesScalars_manyLines
    simp only [List.forall_mem_cons, List.not_mem_nil, false_imp_iff, implies_true, and_true]
    refine ⟨?_, ?_, ?_, ?_⟩
    · rw [← Json.Layout.ofList_oneLine]
      exact htexts hline (.refl d)
    · rw [← Json.Layout.ofList_manyLines]
      exact htexts hlines (.refl d)
    · rw [← Json.Layout.ofList_oneLine]
      exact htexts hline h
    · rw [← Json.Layout.ofList_manyLines]
      exact htexts hlines h

end Respelled

theorem toList_toLower (s : String) : s.toLower.toList = s.toList.map Char.toLower :=
  String.toList_map

theorem toLower_eq_of_map {k s : String} (h : k.toList.map Char.toLower = s.toList) :
    k.toLower = s := by
  rw [← String.toList_inj, toList_toLower, h]

/-- Two members, each with its key in another case, that change places. -/
theorem respelled_swap {k k' l l' : String} {v v' w w' : Json}
    (hk : k.toList.map Char.toLower = k'.toList.map Char.toLower)
    (hl : l.toList.map Char.toLower = l'.toList.map Char.toLower) (hv : Respelled v v')
    (hw : Respelled w w') :
    Respelled (.object [(k, v), (l, w)]) (.object [(l', w'), (k', v')]) := by
  have hkey : ∀ {key key' : String}, key.toList.map Char.toLower = key'.toList.map Char.toLower →
      key.toLower = key'.toLower := by
    intro key key' h
    refine toLower_eq_of_map ?_
    rw [h, toList_toLower]
  have hcases : Respelled (.object [(k, v), (l, w)]) (.object [(k', v'), (l', w')]) :=
    Json.respelled_members [] (.cons ⟨hkey hk, hv⟩ (.cons ⟨hkey hl, hw⟩ .nil))
  exact hcases.trans (.order (.swap _ _ _))

/-- A document with a node that is described. -/
def plainDocument : Json :=
  .object [("name", .string "flow"),
    ("properties", .object [("version", .natural 2),
      ("typeProperties", .object [
        ("sources", .array [
          .object [("name", .string "src"), ("description", .string "Where it starts")]]),
        ("script", .string "source(a: 1) ~> src")])])]

/-- The same document with keys in other cases and members in other orders. -/
def shoutedDocument : Json :=
  .object [("PROPERTIES", .object [("TYPEPROPERTIES", .object [
        ("SCRIPT", .string "source(a: 1) ~> src"),
        ("SOURCES", .array [
          .object [("DESCRIPTION", .string "Where it starts"), ("NAME", .string "src")]])]),
      ("VERSION", .natural 2)]),
    ("NAME", .string "flow")]

theorem respelled_shoutedDocument : Respelled plainDocument shoutedDocument := by
  refine respelled_swap (by decide) (by decide) (.refl _) ?_
  refine respelled_swap (by decide) (by decide) (.refl _) ?_
  refine respelled_swap (by decide) (by decide) (.item [] [] ?_) (.refl _)
  exact respelled_swap (by decide) (by decide) (.refl _) (.refl _)

theorem read_respelled_shoutedDocument :
    Respelled plainDocument shoutedDocument ∧ KeysApart plainDocument ∧ Readable 0 plainDocument ∧
      ∀ text ∈ [plainDocument.compact, plainDocument.pretty, shoutedDocument.compact,
          shoutedDocument.pretty],
        read text = .ok
          { name := some "flow", script := "source(a: 1) ~> src",
            descriptions := [("src", "Where it starts")] } := by
  have hname : "name".toLower = "name" := toLower_eq_of_map (by decide)
  have hproperties : "properties".toLower = "properties" := toLower_eq_of_map (by decide)
  have hversion : "version".toLower = "version" := toLower_eq_of_map (by decide)
  have htype : "typeProperties".toLower = "typeproperties" := toLower_eq_of_map (by decide)
  have hsources : "sources".toLower = "sources" := toLower_eq_of_map (by decide)
  have hdescription : "description".toLower = "description" := toLower_eq_of_map (by decide)
  have hscript : "script".toLower = "script" := toLower_eq_of_map (by decide)
  have hapart : KeysApart plainDocument := by
    simp [plainDocument, Json.keysApart_object_iff, Json.keysApart_array_iff, KeysApart.string,
      Json.natural, KeysApart.number, hname, hproperties, hversion, htype, hsources, hdescription,
      hscript]
  have hreadable : Readable 0 plainDocument := by
    have hversion : Readable 2 (.natural 2) := .number 2 (Json.readBack_natural (by decide))
    simp [plainDocument, Json.readable_object_iff, Json.readable_array_iff, Readable.string,
      Json.depthBound, hversion]
  have hdocument : ofJson plainDocument =
      { name := some "flow", script := "source(a: 1) ~> src",
        descriptions := [("src", "Where it starts")] } := by
    have hsinks : "sinks".toLower = "sinks" := toLower_eq_of_map (by decide)
    have htransformations : "transformations".toLower = "transformations" :=
      toLower_eq_of_map (by decide)
    have hblank : Text.blank "Where it starts".toList = false := by decide
    simp only [ofJson, plainDocument, Json.field?, Json.stringField?, Json.members, Json.string?,
      Json.array?, scriptOf, descriptionsOf, describedSections, descriptionOf?, hname,
      hproperties, hversion, htype, hsources, hdescription, hscript, hsinks, htransformations,
      hblank, List.find?_cons, List.find?_nil, String.reduceBEq, List.flatMap_cons,
      List.flatMap_nil, List.filterMap_cons, List.filterMap_nil, Option.map_some, Option.map_none,
      Option.bind_some, Option.bind_none, Option.bind_eq_bind, Option.getD_some, Option.getD_none]
    rfl
  obtain ⟨-, -, hread⟩ := read_respelled respelled_shoutedDocument hapart
  rw [hdocument] at hread
  exact ⟨respelled_shoutedDocument, hapart, hreadable, hread hreadable⟩

end FlowDoc.Document
