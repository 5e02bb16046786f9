import FlowDoc.Graph.Json
import FlowDoc.Proofs.Json.Decoding

/-!
# Graphs survive being written

A graph that is written as JSON and read back is the same graph: the reader finds every field that
the writer wrote, takes a field that was left out as one that is not there, and keeps the entries of
a bag in their order, repeated keys included. This holds of all graphs whose numbers are words of 64
bits, whether or not the numbers fit the nodes.

## Main definitions

* `Graph.FitsWords`: all numbers of a graph are words

## Main results

* `Bag.reads`, `Node.reads`, `Edge.reads`, `Graph.reads`: values are read from their texts, in every
  layout
* `Graph.ofJson_toJson`: a graph is read back from one line and from many
-/

namespace FlowDoc

open Json Json.Decoder

/-! ## Numbers -/

/-- The numbers of a place are words. -/
structure Position.FitsWords (p : Position) : Prop where
  line : p.line < wordBound
  col : p.col < wordBound

/-- The numbers of a span are words. -/
structure Span.FitsWords (s : Span) : Prop where
  start : s.start.FitsWords
  stop : s.stop.FitsWords

/-- The numbers of a node are words. -/
structure Node.FitsWords (n : Node) : Prop where
  id : n.id < wordBound
  parents : ∀ id ∈ n.parents.toList, id < wordBound
  children : ∀ id ∈ n.children.toList, id < wordBound
  span : n.span.FitsWords

/-- The numbers of an edge are words. -/
structure Edge.FitsWords (e : Edge) : Prop where
  source : e.source < wordBound
  target : e.target < wordBound

/-- All numbers of a graph are words. -/
structure Graph.FitsWords (g : Graph) : Prop where
  nodes : ∀ n ∈ g.nodes.toList, n.FitsWords
  edges : ∀ e ∈ g.edges.toList, e.FitsWords

section Decidable

instance (p : Position) : Decidable p.FitsWords :=
  decidable_of_iff (p.line < wordBound ∧ p.col < wordBound)
    ⟨fun ⟨h₁, h₂⟩ => ⟨h₁, h₂⟩, fun ⟨h₁, h₂⟩ => ⟨h₁, h₂⟩⟩

instance (s : Span) : Decidable s.FitsWords :=
  decidable_of_iff (s.start.FitsWords ∧ s.stop.FitsWords)
    ⟨fun ⟨h₁, h₂⟩ => ⟨h₁, h₂⟩, fun ⟨h₁, h₂⟩ => ⟨h₁, h₂⟩⟩

instance (n : Node) : Decidable n.FitsWords :=
  decidable_of_iff
    (n.id < wordBound ∧ (∀ id ∈ n.parents.toList, id < wordBound) ∧
      (∀ id ∈ n.children.toList, id < wordBound) ∧ n.span.FitsWords)
    ⟨fun ⟨h₁, h₂, h₃, h₄⟩ => ⟨h₁, h₂, h₃, h₄⟩, fun ⟨h₁, h₂, h₃, h₄⟩ => ⟨h₁, h₂, h₃, h₄⟩⟩

instance (e : Edge) : Decidable e.FitsWords :=
  decidable_of_iff (e.source < wordBound ∧ e.target < wordBound)
    ⟨fun ⟨h₁, h₂⟩ => ⟨h₁, h₂⟩, fun ⟨h₁, h₂⟩ => ⟨h₁, h₂⟩⟩

instance (g : Graph) : Decidable g.FitsWords :=
  decidable_of_iff
    ((∀ n ∈ g.nodes.toList, n.FitsWords) ∧ ∀ e ∈ g.edges.toList, e.FitsWords)
    ⟨fun ⟨h₁, h₂⟩ => ⟨h₁, h₂⟩, fun ⟨h₁, h₂⟩ => ⟨h₁, h₂⟩⟩

end Decidable

/-! ## Reading what was written -/

section Reads

variable (l : Layout) (level : Nat)

/-- The entries of a bag are taken in in their order. -/
theorem takes_entries
    {member : Array (String × String) → String → Decoder (Array (String × String))}
    (hmember : ∀ done key cs, member done key cs =
      valued string cs >>= fun p => .ok (done.push (key, p.1), p.2))
    (entries : List (String × String)) (done : Array (String × String)) :
    Takes member done
      ((entries.map fun e => (e.1, Json.string e.2)).map (l.member level))
      (done ++ entries.toArray) := by
  induction entries generalizing done with
  | nil =>
    rw [List.map_nil, List.map_nil, Array.append_empty]
    exact .nil done
  | cons e entries ih =>
    have hdone : done.push e ++ entries.toArray = done ++ (e :: entries).toArray := by
      rw [← Array.toList_inj]
      simp
    have hnext := ih (done.push e)
    rw [hdone] at hnext
    refine .cons (fun rest hrest => ?_) hnext
    rw [hmember]
    exact bind_eq_ok_iff.mpr
      ⟨_, valued_of_reads (reads_text l level e.2) l.spaces_afterColon hrest, rfl⟩

theorem Bag.reads (bag : Bag) : Reads Bag.decoder (l.write level bag.toJson) bag := by
  rw [Bag.toJson, l.write_object]
  refine ⟨⟨'\x7b', _, rfl, by decide, by decide⟩, fun {cs rest} hcs _ => ?_⟩
  have htakes := takes_entries l (level + 1) (fun _ _ _ => rfl) bag.entries #[]
  rw [Bag.decoder, hcs]
  refine bind_eq_ok_iff.mpr
    ⟨_, members_enclosed (l.spaces_gap _) (l.spaces_gap _) htakes rest, ?_⟩
  simp
  rfl

variable {level}

theorem Position.reads {p : Position} (h : p.FitsWords) :
    Reads Position.decoder (l.write level p.toJson) p := by
  refine reads_object l level ⟨some p.line, some p.col⟩ ?_ (fun _ => rfl)
  refine .field l _ (reads_natural l _ h.line) (fun _ => rfl) (fun _ => rfl) ?_
  refine .field l _ (reads_natural l _ h.col) (fun _ => rfl) (fun _ => rfl) ?_
  exact .nil _

theorem Span.reads {s : Span} (h : s.FitsWords) :
    Reads Span.decoder (l.write level s.toJson) s := by
  refine reads_object l level ⟨some s.start, some s.stop⟩ ?_ (fun _ => rfl)
  refine .field l _ (Position.reads l h.start) (fun _ => rfl) (fun _ => rfl) ?_
  refine .field l _ (Position.reads l h.stop) (fun _ => rfl) (fun _ => rfl) ?_
  exact .nil _

theorem nodeIds_reads {ids : Array NodeId} (h : ∀ id ∈ ids.toList, id < wordBound) :
    Reads nodeIdsDecoder (l.write level (nodeIdsToJson ids)) ids where
  solid := (reads_array l level fun id hid => reads_natural l _ (h id hid)).solid
  decode hcs hrest :=
    bind_eq_ok_iff.mpr
      ⟨_, (reads_array l level fun id hid => reads_natural l _ (h id hid)).decode hcs hrest, rfl⟩

/-- A member that may be left out is taken as one that is not there. -/
theorem takes_optional {σ : Type} {member : σ → String → Decoder σ} {key : String}
    {take : Option (Option String) × List Char → Except DecodeError (σ × List Char)}
    (put : Option (Option String) → σ) (value : Option String)
    (hstep : ∀ cs, member (put none) key cs = once none (nullable string) cs >>= take)
    (htake : ∀ v rest, take (v, rest) = .ok (put v, rest)) :
    Takes member (put none) ((optionalMember key value).map (l.member level))
      (put (value.map some)) := by
  cases value with
  | none => exact .nil _
  | some s => exact .field l _ (reads_optional l _ s) hstep (htake _) (.nil _)

theorem Edge.reads {e : Edge} (h : e.FitsWords) :
    Reads Edge.decoder (l.write level e.toJson) e := by
  refine reads_object l level ⟨some e.source, some e.target, e.stream.map some⟩ ?_ ?_
  · rw [List.map_append]
    refine .append ?_ (takes_optional l
      (fun v => (⟨some e.source, some e.target, v⟩ : EdgeFields)) e.stream
      (fun _ => rfl) (fun _ _ => rfl))
    refine .field l _ (reads_natural l _ h.source) (fun _ => rfl) (fun _ => rfl) ?_
    refine .field l _ (reads_natural l _ h.target) (fun _ => rfl) (fun _ => rfl) ?_
    exact .nil _
  · intro rest
    have hstream : (e.stream.map some).join = e.stream := by
      cases e.stream <;> rfl
    show Except.ok ((⟨e.source, e.target, (e.stream.map some).join⟩ : Edge), rest) = _
    rw [hstream]

theorem Node.reads {n : Node} (h : n.FitsWords) :
    Reads Node.decoder (l.write level n.toJson) n := by
  refine reads_object l level
    ⟨some n.id, some n.name, some n.nodeType, some n.attributes, n.description.map some,
      some n.parents, some n.children, some n.span⟩ ?_ ?_
  · rw [List.map_append, List.map_append]
    refine .append (.append ?_ (takes_optional l
      (fun v => NodeFields.mk (some n.id) (some n.name) (some n.nodeType) (some n.attributes) v
        none none none)
      n.description (fun _ => rfl) (fun _ _ => rfl))) ?_
    · refine .field l _ (reads_natural l _ h.id) (fun _ => rfl) (fun _ => rfl) ?_
      refine .field l _ (reads_text l _ n.name) (fun _ => rfl) (fun _ => rfl) ?_
      refine .field l _ (reads_text l _ n.nodeType) (fun _ => rfl) (fun _ => rfl) ?_
      refine .field l _ (Bag.reads l _ n.attributes) (fun _ => rfl) (fun _ => rfl) ?_
      exact .nil _
    · refine .field l _ (nodeIds_reads l h.parents) (fun _ => rfl) (fun _ => rfl) ?_
      refine .field l _ (nodeIds_reads l h.children) (fun _ => rfl) (fun _ => rfl) ?_
      refine .field l _ (Span.reads l h.span) (fun _ => rfl) (fun _ => rfl) ?_
      exact .nil _
  · intro rest
    have hdescription : (n.description.map some).join = n.description := by
      cases n.description <;> rfl
    show Except.ok ({ n with description := (n.description.map some).join }, rest) = _
    rw [hdescription]

theorem Graph.reads {g : Graph} (h : g.FitsWords) :
    Reads Graph.decoder (l.write level g.toJson) g := by
  refine reads_object l level ⟨some g.nodes.toList, some g.edges.toList⟩ ?_ (fun _ => rfl)
  refine .field l _ (reads_array l _ fun n hn => Node.reads l (h.nodes n hn)) (fun _ => rfl)
    (fun _ => rfl) ?_
  refine .field l _ (reads_array l _ fun e he => Edge.reads l (h.edges e he)) (fun _ => rfl)
    (fun _ => rfl) ?_
  exact .nil _

end Reads

/-- **A graph survives being written**, on one line and over many: what is read back is the graph,
with the same numbers, texts, descriptions and streams, and the same entries of its bags in the
same order. -/
theorem Graph.ofJson_toJson {g : Graph} (h : g.FitsWords) :
    Graph.ofJson g.toJson.compact = .ok g ∧ Graph.ofJson g.toJson.pretty = .ok g := by
  have hread (l : Layout) : Graph.ofJson (String.ofList (l.write 0 g.toJson)) = .ok g :=
    all_of_reads (Graph.reads l h)
  have hcompact := hread Layout.oneLine
  have hpretty := hread Layout.manyLines
  simp only [Layout.oneLine, Layout.manyLines, String.ofList_toList] at hcompact hpretty
  exact ⟨hcompact, hpretty⟩

/-- A graph that no script declares: its numbers fit no nodes, a bag repeats a key, and its texts
hold quotes, backslashes, control characters and characters of other scripts. -/
def strayGraph : Graph :=
  { nodes :=
      #[{ id := 18446744073709551615, name := "a \"b\" \\ c", nodeType := "é\n\x01\x1f",
          attributes := ⟨[("k", "1"), ("", "\x7b[,]\x7d"), ("k", "2\t")]⟩, description := some "",
          parents := #[10, 0, 10], span := ⟨⟨0, 10⟩, ⟨3, 18446744073709551615⟩⟩ },
        { id := 18446744073709551615, name := "", nodeType := "", children := #[7] }]
    edges := #[⟨100, 5, some "µ"⟩, ⟨100, 5, none⟩] }

theorem Graph.ofJson_toJson_strayGraph :
    strayGraph.FitsWords ∧ Graph.ofJson strayGraph.toJson.compact = .ok strayGraph ∧
      Graph.ofJson strayGraph.toJson.pretty = .ok strayGraph := by
  have h : strayGraph.FitsWords := by decide
  exact ⟨h, Graph.ofJson_toJson h⟩

end FlowDoc
