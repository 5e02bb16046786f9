import FlowDoc.Proofs.Graph.Json
import FlowDoc.Proofs.Json.Members

/-!
# Graphs that are read hold words

Whatever text a graph is read from, all its numbers are words of 64 bits: the reader takes a number
for a natural one only below that bound, and every number of a graph comes from it. Nothing else is
asked of the numbers, so each word may stand for a node.

## Main definitions

* `Decoder.Yields`: what holds of all values that a decoder yields
* `NodeFields.FitsWords`, `EdgeFields.FitsWords`: all numbers that were read so far are words

## Main results

* `yields_word`: a number that is read is a word
* `Yields.list`, `Yields.members`, `Yields.record`: decoders that are made of others
* `Graph.fitsWords_ofJson`: all numbers of a graph that is read are words
-/

namespace FlowDoc

namespace Json

/-- A number that is read as a natural one is a word. -/
theorem lt_of_readNumber {purpose : Purpose} {cs rest : List Char} {n : Nat}
    (h : readNumber purpose cs = .ok (.natural n, rest)) : n < wordBound := by
  unfold readNumber at h
  obtain ⟨⟨whole, afterWhole⟩, -, h⟩ := bind_eq_ok_iff.mp h
  obtain ⟨⟨m, afterFraction⟩, -, h⟩ := bind_eq_ok_iff.mp h
  obtain ⟨⟨m, rest'⟩, -, h⟩ := bind_eq_ok_iff.mp h
  dsimp only at h
  split_ifs at h with hlarge hnatural
  · obtain ⟨hn, -⟩ := Prod.mk.inj (Except.ok.inj h)
    exact Number.natural.inj hn ▸ hnatural.2.2
  · obtain ⟨hn, -⟩ := Prod.mk.inj (Except.ok.inj h)
    cases hn

namespace Decoder

variable {α β σ : Type} {P : α → Prop} {Q : β → Prop} {d : Decoder α}

/-- All values that a decoder yields have a property. -/
def Yields (d : Decoder α) (P : α → Prop) : Prop :=
  ∀ ⦃cs : List Char⦄ ⦃a : α⦄ ⦃rest : List Char⦄, d cs = .ok (a, rest) → P a

theorem yields_any (d : Decoder α) : Yields d fun _ => True :=
  fun _ _ _ _ => trivial

/-- **A number that is read** is a word. -/
theorem yields_word : Yields word (· < wordBound) := by
  intro cs n rest h
  unfold word at h
  split at h
  · split_ifs at h with hdigit
    · obtain ⟨⟨number, rest'⟩, hnumber, h⟩ := bind_eq_ok_iff.mp h
      cases number with
      | natural n' =>
        obtain ⟨rfl, rfl⟩ := Prod.mk.inj (Except.ok.inj h)
        exact lt_of_readNumber (lift_eq_ok_iff.mp hnumber)
      | written text => cases h
    · exact absurd h mismatched_ne_ok
  · exact absurd h mismatched_ne_ok

theorem Yields.items (hd : Yields d P) (fuel : Nat) (first : Bool) :
    Yields (items d fuel first) fun as => ∀ a ∈ as, P a := by
  intro cs as rest h
  induction fuel generalizing first cs as rest with
  | zero => cases h
  | succ fuel ih =>
    rw [Decoder.items] at h
    obtain ⟨⟨more, cs'⟩, -, h⟩ := bind_eq_ok_iff.mp h
    cases more with
    | false =>
      obtain ⟨rfl, -⟩ := Prod.mk.inj (Except.ok.inj h)
      exact fun a ha => absurd ha List.not_mem_nil
    | true =>
      obtain ⟨⟨a, cs''⟩, ha, h⟩ := bind_eq_ok_iff.mp h
      obtain ⟨⟨as', rest'⟩, has, h⟩ := bind_eq_ok_iff.mp h
      obtain ⟨rfl, -⟩ := Prod.mk.inj (Except.ok.inj h)
      exact List.forall_mem_cons.mpr ⟨hd ha, ih false has⟩

/-- Of the items of an array holds what holds of what their decoder yields. -/
theorem Yields.list (hd : Yields d P) : Yields (list d) fun as => ∀ a ∈ as, P a := by
  intro cs as rest h
  unfold Decoder.list at h
  split at h
  · exact hd.items _ _ h
  · exact absurd h mismatched_ne_ok

/-- What each member keeps of the state holds of the state after all of them. -/
theorem Yields.members {I : σ → Prop} {start : σ} {member : σ → String → Decoder σ}
    (hstart : I start) (hmember : ∀ s key, I s → Yields (member s key) I) :
    Yields (members start member) I := by
  -- Induction on the fuel, for any state that was reached.
  have hfrom : ∀ fuel first s, I s → Yields (membersFrom member fuel first s) I := by
    intro fuel
    induction fuel with
    | zero => exact fun first s hs cs s' rest h => nomatch h
    | succ fuel ih =>
      intro first s hs cs s' rest h
      rw [membersFrom] at h
      obtain ⟨⟨more, cs'⟩, -, h⟩ := bind_eq_ok_iff.mp h
      cases more with
      | false =>
        obtain ⟨rfl, -⟩ := Prod.mk.inj (Except.ok.inj h)
        exact hs
      | true =>
        obtain ⟨⟨key, cs''⟩, -, h⟩ := bind_eq_ok_iff.mp h
        obtain ⟨⟨s'', cs'''⟩, hs'', h⟩ := bind_eq_ok_iff.mp h
        exact ih false s'' (hmember s key hs hs'') h
  intro cs s rest h
  exact hfrom _ true start hstart h

theorem Yields.valued (hd : Yields d P) : Yields (valued d) P := by
  intro cs a rest h
  obtain ⟨cs', -, h⟩ := bind_eq_ok_iff.mp h
  exact hd h

theorem Yields.once (hd : Yields d P) (earlier : Option α) :
    Yields (once earlier d) fun v => ∀ a ∈ v, P a := by
  intro cs v rest h
  cases earlier with
  | some a => cases h
  | none =>
    obtain ⟨⟨a, cs'⟩, ha, h⟩ := bind_eq_ok_iff.mp h
    obtain ⟨rfl, -⟩ := Prod.mk.inj (Except.ok.inj h)
    exact fun a' ha' => Option.mem_some_iff.mp ha' ▸ hd.valued ha

theorem Yields.field (hd : Yields d P) (first : Bool) : Yields (field first d) P := by
  intro cs a rest h
  obtain ⟨⟨v, cs'⟩, hv, h⟩ := bind_eq_ok_iff.mp h
  cases v with
  | none => cases h
  | some a' =>
    obtain ⟨rfl, -⟩ := Prod.mk.inj (Except.ok.inj h)
    obtain ⟨⟨more, cs''⟩, -, hv⟩ := bind_eq_ok_iff.mp hv
    cases more with
    | false => cases hv
    | true =>
      obtain ⟨⟨a'', cs'''⟩, ha, hv⟩ := bind_eq_ok_iff.mp hv
      obtain ⟨ha', -⟩ := Prod.mk.inj (Except.ok.inj hv)
      exact Option.some.inj ha' ▸ hd ha

/-- What is made of a value has a property if it has it for all values that the decoder yields. -/
theorem Yields.put (hd : Yields d P) (f : α → β) (hf : ∀ a, P a → Q (f a)) :
    Yields (fun cs => d cs >>= fun p => .ok (f p.1, p.2)) Q := by
  intro cs b rest h
  obtain ⟨⟨a, cs'⟩, ha, h⟩ := bind_eq_ok_iff.mp h
  obtain ⟨rfl, -⟩ := Prod.mk.inj (Except.ok.inj h)
  exact hf a (hd ha)

/-- Of a record holds what holds of it in both forms. -/
theorem Yields.record {ofMembers ofFields : Decoder α} (hmembers : Yields ofMembers P)
    (hfields : Yields ofFields P) : Yields (record ofMembers ofFields) P := by
  intro cs a rest h
  unfold Decoder.record at h
  split at h
  · obtain ⟨⟨a', cs'⟩, ha, h⟩ := bind_eq_ok_iff.mp h
    obtain ⟨⟨_, cs''⟩, -, h⟩ := bind_eq_ok_iff.mp h
    obtain ⟨rfl, -⟩ := Prod.mk.inj (Except.ok.inj h)
    exact hfields ha
  · exact hmembers h
  · exact absurd h mismatched_ne_ok

end Decoder

end Json

open Json Json.Decoder

/-! ## The numbers of records -/

theorem present_eq_ok_iff {α : Type} {value : Option α} {a : α} :
    present value = .ok a ↔ value = some a := by
  cases value with
  | none => exact ⟨fun h => (nomatch h), fun h => (nomatch h)⟩
  | some b =>
    exact ⟨fun h => congrArg some (Except.ok.inj h), fun h => congrArg _ (Option.some.inj h)⟩

/-- The numbers of a place that were read are words. -/
structure PositionFields.FitsWords (f : PositionFields) : Prop where
  line : ∀ n ∈ f.line, n < wordBound
  col : ∀ n ∈ f.col, n < wordBound

theorem Position.yields : Yields Position.decoder Position.FitsWords := by
  refine .record (fun cs p rest h => ?_) fun cs p rest h => ?_
  · obtain ⟨⟨fields, cs'⟩, hfields, h⟩ := bind_eq_ok_iff.mp h
    have hf : fields.FitsWords := by
      refine Yields.members ⟨by simp, by simp⟩ (fun f key hf cs f' rest h => ?_) hfields
      split at h
      · exact (yields_word.once _).put (fun v => { f with line := v })
          (fun v hv => { hf with line := hv }) h
      · exact (yields_word.once _).put (fun v => { f with col := v })
          (fun v hv => { hf with col := hv }) h
      · exact (yields_any _).put (fun _ => f) (fun _ _ => hf) h
    obtain ⟨line, hline, h⟩ := bind_eq_ok_iff.mp h
    obtain ⟨col, hcol, h⟩ := bind_eq_ok_iff.mp h
    obtain ⟨rfl, -⟩ := Prod.mk.inj (Except.ok.inj h)
    exact ⟨hf.line _ (present_eq_ok_iff.mp hline), hf.col _ (present_eq_ok_iff.mp hcol)⟩
  · obtain ⟨⟨line, cs'⟩, hline, h⟩ := bind_eq_ok_iff.mp h
    obtain ⟨⟨col, cs''⟩, hcol, h⟩ := bind_eq_ok_iff.mp h
    obtain ⟨rfl, -⟩ := Prod.mk.inj (Except.ok.inj h)
    exact ⟨yields_word.field _ hline, yields_word.field _ hcol⟩

/-- The places of a span that were read hold words. -/
structure SpanFields.FitsWords (f : SpanFields) : Prop where
  start : ∀ p ∈ f.start, p.FitsWords
  stop : ∀ p ∈ f.stop, p.FitsWords

theorem Span.yields : Yields Span.decoder Span.FitsWords := by
  refine .record (fun cs s rest h => ?_) fun cs s rest h => ?_
  · obtain ⟨⟨fields, cs'⟩, hfields, h⟩ := bind_eq_ok_iff.mp h
    have hf : fields.FitsWords := by
      refine Yields.members ⟨by simp, by simp⟩ (fun f key hf cs f' rest h => ?_) hfields
      split at h
      · exact (Position.yields.once _).put (fun v => { f with start := v })
          (fun v hv => { hf with start := hv }) h
      · exact (Position.yields.once _).put (fun v => { f with stop := v })
          (fun v hv => { hf with stop := hv }) h
      · exact (yields_any _).put (fun _ => f) (fun _ _ => hf) h
    obtain ⟨start, hstart, h⟩ := bind_eq_ok_iff.mp h
    obtain ⟨stop, hstop, h⟩ := bind_eq_ok_iff.mp h
    obtain ⟨rfl, -⟩ := Prod.mk.inj (Except.ok.inj h)
    exact ⟨hf.start _ (present_eq_ok_iff.mp hstart), hf.stop _ (present_eq_ok_iff.mp hstop)⟩
  · obtain ⟨⟨start, cs'⟩, hstart, h⟩ := bind_eq_ok_iff.mp h
    obtain ⟨⟨stop, cs''⟩, hstop, h⟩ := bind_eq_ok_iff.mp h
    obtain ⟨rfl, -⟩ := Prod.mk.inj (Except.ok.inj h)
    exact ⟨Position.yields.field _ hstart, Position.yields.field _ hstop⟩

theorem nodeIds_yields : Yields nodeIdsDecoder fun ids => ∀ id ∈ ids.toList, id < wordBound :=
  yields_word.list.put List.toArray fun _ hids => hids

/-- The numbers of a node that were read are words. -/
structure NodeFields.FitsWords (f : NodeFields) : Prop where
  id : ∀ n ∈ f.id, n < wordBound
  parents : ∀ ids ∈ f.parents, ∀ n ∈ ids.toList, n < wordBound
  children : ∀ ids ∈ f.children, ∀ n ∈ ids.toList, n < wordBound
  span : ∀ s ∈ f.span, s.FitsWords

/-- A member that is read keeps the numbers words. -/
theorem NodeFields.FitsWords.member {f : NodeFields} (hf : f.FitsWords) (key : String) :
    Yields (f.member key) NodeFields.FitsWords := by
  intro cs f' rest h
  unfold NodeFields.member at h
  split at h
  · exact (yields_word.once _).put (fun v => { f with id := v })
      (fun v hv => { hf with id := hv }) h
  · exact (yields_any _).put (fun v => { f with name := v }) (fun _ _ => { hf with }) h
  · exact (yields_any _).put (fun v => { f with nodeType := v }) (fun _ _ => { hf with }) h
  · exact (yields_any _).put (fun v => { f with attributes := v }) (fun _ _ => { hf with }) h
  · exact (yields_any _).put (fun v => { f with description := v }) (fun _ _ => { hf with }) h
  · exact (nodeIds_yields.once _).put (fun v => { f with parents := v })
      (fun v hv => { hf with parents := hv }) h
  · exact (nodeIds_yields.once _).put (fun v => { f with children := v })
      (fun v hv => { hf with children := hv }) h
  · exact (Span.yields.once _).put (fun v => { f with span := v })
      (fun v hv => { hf with span := hv }) h
  · exact (yields_any _).put (fun _ => f) (fun _ _ => hf) h

theorem Node.yields : Yields Node.decoder Node.FitsWords := by
  refine .record (fun cs n rest h => ?_) fun cs n rest h => ?_
  · obtain ⟨⟨fields, cs'⟩, hfields, h⟩ := bind_eq_ok_iff.mp h
    have hf : fields.FitsWords :=
      Yields.members ⟨by simp, by simp, by simp, by simp⟩ (fun f key hf => hf.member key) hfields
    obtain ⟨n', hnode, h⟩ := bind_eq_ok_iff.mp h
    obtain ⟨rfl, -⟩ := Prod.mk.inj (Except.ok.inj h)
    obtain ⟨id, hid, hnode⟩ := bind_eq_ok_iff.mp hnode
    obtain ⟨name, -, hnode⟩ := bind_eq_ok_iff.mp hnode
    obtain ⟨nodeType, -, hnode⟩ := bind_eq_ok_iff.mp hnode
    obtain ⟨attributes, -, hnode⟩ := bind_eq_ok_iff.mp hnode
    obtain ⟨parents, hparents, hnode⟩ := bind_eq_ok_iff.mp hnode
    obtain ⟨children, hchildren, hnode⟩ := bind_eq_ok_iff.mp hnode
    obtain ⟨span, hspan, hnode⟩ := bind_eq_ok_iff.mp hnode
    obtain rfl := Except.ok.inj hnode
    exact ⟨hf.id _ (present_eq_ok_iff.mp hid), hf.parents _ (present_eq_ok_iff.mp hparents),
      hf.children _ (present_eq_ok_iff.mp hchildren), hf.span _ (present_eq_ok_iff.mp hspan)⟩
  · obtain ⟨⟨id, cs₁⟩, hid, h⟩ := bind_eq_ok_iff.mp h
    obtain ⟨⟨name, cs₂⟩, -, h⟩ := bind_eq_ok_iff.mp h
    obtain ⟨⟨nodeType, cs₃⟩, -, h⟩ := bind_eq_ok_iff.mp h
    obtain ⟨⟨attributes, cs₄⟩, -, h⟩ := bind_eq_ok_iff.mp h
    obtain ⟨⟨description, cs₅⟩, -, h⟩ := bind_eq_ok_iff.mp h
    obtain ⟨⟨parents, cs₆⟩, hparents, h⟩ := bind_eq_ok_iff.mp h
    obtain ⟨⟨children, cs₇⟩, hchildren, h⟩ := bind_eq_ok_iff.mp h
    obtain ⟨⟨span, cs₈⟩, hspan, h⟩ := bind_eq_ok_iff.mp h
    obtain ⟨rfl, -⟩ := Prod.mk.inj (Except.ok.inj h)
    exact ⟨yields_word.field _ hid, nodeIds_yields.field _ hparents,
      nodeIds_yields.field _ hchildren, Span.yields.field _ hspan⟩

/-- The numbers of an edge that were read are words. -/
structure EdgeFields.FitsWords (f : EdgeFields) : Prop where
  source : ∀ n ∈ f.source, n < wordBound
  target : ∀ n ∈ f.target, n < wordBound

theorem Edge.yields : Yields Edge.decoder Edge.FitsWords := by
  refine .record (fun cs e rest h => ?_) fun cs e rest h => ?_
  · obtain ⟨⟨fields, cs'⟩, hfields, h⟩ := bind_eq_ok_iff.mp h
    have hf : fields.FitsWords := by
      refine Yields.members ⟨by simp, by simp⟩ (fun f key hf cs f' rest h => ?_) hfields
      split at h
      · exact (yields_word.once _).put (fun v => { f with source := v })
          (fun v hv => { hf with source := hv }) h
      · exact (yields_word.once _).put (fun v => { f with target := v })
          (fun v hv => { hf with target := hv }) h
      · exact (yields_any _).put (fun v => { f with stream := v }) (fun _ _ => { hf with }) h
      · exact (yields_any _).put (fun _ => f) (fun _ _ => hf) h
    obtain ⟨source, hsource, h⟩ := bind_eq_ok_iff.mp h
    obtain ⟨target, htarget, h⟩ := bind_eq_ok_iff.mp h
    obtain ⟨rfl, -⟩ := Prod.mk.inj (Except.ok.inj h)
    exact ⟨hf.source _ (present_eq_ok_iff.mp hsource), hf.target _ (present_eq_ok_iff.mp htarget)⟩
  · obtain ⟨⟨source, cs₁⟩, hsource, h⟩ := bind_eq_ok_iff.mp h
    obtain ⟨⟨target, cs₂⟩, htarget, h⟩ := bind_eq_ok_iff.mp h
    obtain ⟨⟨stream, cs₃⟩, -, h⟩ := bind_eq_ok_iff.mp h
    obtain ⟨rfl, -⟩ := Prod.mk.inj (Except.ok.inj h)
    exact ⟨yields_word.field _ hsource, yields_word.field _ htarget⟩

/-- The nodes and edges of a graph that were read hold words. -/
structure GraphFields.FitsWords (f : GraphFields) : Prop where
  nodes : ∀ ns ∈ f.nodes, ∀ n ∈ ns, n.FitsWords
  edges : ∀ es ∈ f.edges, ∀ e ∈ es, e.FitsWords

theorem Graph.yields : Yields Graph.decoder Graph.FitsWords := by
  refine .record (fun cs g rest h => ?_) fun cs g rest h => ?_
  · obtain ⟨⟨fields, cs'⟩, hfields, h⟩ := bind_eq_ok_iff.mp h
    have hf : fields.FitsWords := by
      refine Yields.members ⟨by simp, by simp⟩ (fun f key hf cs f' rest h => ?_) hfields
      split at h
      · exact (Node.yields.list.once _).put (fun v => { f with nodes := v })
          (fun v hv => { hf with nodes := hv }) h
      · exact (Edge.yields.list.once _).put (fun v => { f with edges := v })
          (fun v hv => { hf with edges := hv }) h
      · exact (yields_any _).put (fun _ => f) (fun _ _ => hf) h
    obtain ⟨nodes, hnodes, h⟩ := bind_eq_ok_iff.mp h
    obtain ⟨edges, hedges, h⟩ := bind_eq_ok_iff.mp h
    obtain ⟨rfl, -⟩ := Prod.mk.inj (Except.ok.inj h)
    exact ⟨hf.nodes _ (present_eq_ok_iff.mp hnodes), hf.edges _ (present_eq_ok_iff.mp hedges)⟩
  · obtain ⟨⟨nodes, cs₁⟩, hnodes, h⟩ := bind_eq_ok_iff.mp h
    obtain ⟨⟨edges, cs₂⟩, hedges, h⟩ := bind_eq_ok_iff.mp h
    obtain ⟨rfl, -⟩ := Prod.mk.inj (Except.ok.inj h)
    exact ⟨Node.yields.list.field _ hnodes, Edge.yields.list.field _ hedges⟩

/-- **All numbers of a graph that is read** are words. -/
theorem Graph.fitsWords_ofJson {text : String} {g : Graph} (h : Graph.ofJson text = .ok g) :
    g.FitsWords := by
  obtain ⟨⟨g', rest⟩, hg, h⟩ := bind_eq_ok_iff.mp h
  obtain ⟨_, -, h⟩ := bind_eq_ok_iff.mp h
  exact Except.ok.inj h ▸ Graph.yields hg

end FlowDoc
