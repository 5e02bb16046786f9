import FlowDoc.Proofs.Json.Layout
import FlowDoc.Proofs.Render.Flowchart
import FlowDoc.Render.Page
import Mathlib

/-!
# Summaries of nodes

A summary writes four kinds of texts between tags. Since the texts are escaped, no `<` of theirs is
left, and every `<` of a summary belongs to a tag. So a summary can be taken apart again, and two
nodes with the same summary have the same texts; and the data of a page, a string literal for each
summary, holds none of the marks that end the script element around it or open a comment there.

## Main definitions

* `Page.tags`: the tags of summaries
* `Page.Tagged`: a text in which every `<` starts one of them

## Main results

* `escape_injective`, `less_notMem_escape`: escaping can be undone, and leaves no `<`
* `escape_append_inj`, `attributeItem_append_inj`: where escaped texts and items end
* `nodeSummary_eq_iff`: nodes with the same summary
* `Tagged.append`, `Tagged.escaped`: texts that are put together, and string literals, keep tags
* `Tagged.not_isInfix`: what stands nowhere in a text whose `<` all start tags
* `tagged_nodeInfo`: every `<` in the data of a page starts a tag
-/

namespace FlowDoc

namespace Page

/-! ## Escaped texts -/

theorem toList_escape (s : String) : (escape s).toList = s.toList.flatMap escapeChar :=
  String.toList_ofList

/-- No character is written as the start of another one. -/
theorem escapeChar_append_inj {c d : Char} {r r' : List Char}
    (h : escapeChar c ++ r = escapeChar d ++ r') : c = d ∧ r = r' := by
  unfold escapeChar at h
  -- Of two characters that are written in full, the second letters differ.
  split_ifs at h <;> grind

theorem escape_injective : Function.Injective escape := by
  -- Induction on the first text, whatever the second one is.
  have hchars : ∀ cs ds : List Char, cs.flatMap escapeChar = ds.flatMap escapeChar → cs = ds := by
    have hne : ∀ c, escapeChar c ≠ [] := by
      intro c
      unfold escapeChar
      split_ifs <;> simp
    intro cs
    induction cs with
    | nil =>
      intro ds h
      cases ds with
      | nil => rfl
      | cons d ds => simp [hne] at h
    | cons c cs ih =>
      intro ds h
      cases ds with
      | nil => simp [hne] at h
      | cons d ds =>
        rw [List.flatMap_cons, List.flatMap_cons] at h
        obtain ⟨rfl, hrest⟩ := escapeChar_append_inj h
        rw [ih ds hrest]
  intro s t h
  have htexts := congrArg String.toList h
  rw [toList_escape, toList_escape] at htexts
  exact String.toList_injective (hchars _ _ htexts)

theorem less_notMem_escape (s : String) : '<' ∉ (escape s).toList := by
  rw [toList_escape]
  intro h
  obtain ⟨c, -, hc⟩ := List.mem_flatMap.mp h
  unfold escapeChar at hc
  split_ifs at hc with hand hless hgreater
  · simp at hc
  · simp at hc
  · simp at hc
  · exact hless (List.mem_singleton.mp hc).symm

/-- An escaped text ends at the next `<`. -/
theorem escape_append_inj {s t : String} {r r' : List Char}
    (h : (escape s).toList ++ '<' :: r = (escape t).toList ++ '<' :: r') : s = t ∧ r = r' := by
  have hcut := congrArg (Text.cut ['<']) h
  rw [Text.cut_singleton r (less_notMem_escape s), Text.cut_singleton r' (less_notMem_escape t)]
    at hcut
  obtain ⟨htext, hrest⟩ := Prod.mk.inj (Option.some.inj hcut)
  exact ⟨escape_injective (String.toList_injective htext), hrest⟩

/-! ## Summaries -/

theorem toList_attributeItem (e : String × String) :
    (attributeItem e).toList =
      "<li><b>".toList ++ ((escape e.1).toList ++ '<' :: ("/b>: ".toList ++
        ((escape e.2).toList ++ '<' :: "/li>".toList))) := by
  simp [attributeItem]

/-- An item can be taken off from what follows it. -/
theorem attributeItem_append_inj {e e' : String × String} {r r' : List Char}
    (h : (attributeItem e).toList ++ r = (attributeItem e').toList ++ r') : e = e' ∧ r = r' := by
  simp only [toList_attributeItem, List.append_assoc, List.cons_append] at h
  -- The key ends at the tag after it, and so does the value.
  obtain ⟨hkey, h⟩ := escape_append_inj (List.append_cancel_left h)
  obtain ⟨hvalue, h⟩ := escape_append_inj (List.append_cancel_left h)
  exact ⟨Prod.ext hkey hvalue, List.append_cancel_left h⟩

/-- A list of items is told from its text: an item starts with another tag than the one that ends
the list. -/
theorem attributeItems_inj {es es' : List (String × String)}
    (h : (String.join (es.map attributeItem)).toList ++ "</ul>".toList =
      (String.join (es'.map attributeItem)).toList ++ "</ul>".toList) : es = es' := by
  rw [String.toList_join, String.toList_join] at h
  -- Induction on the first list, whatever the second one is.
  induction es generalizing es' with
  | nil =>
    cases es' with
    | nil => rfl
    | cons e' es' => simp [toList_attributeItem] at h
  | cons e es ih =>
    cases es' with
    | nil => simp [toList_attributeItem] at h
    | cons e' es' =>
      rw [List.map_cons, List.map_cons, List.flatMap_cons, List.flatMap_cons, List.append_assoc,
        List.append_assoc] at h
      obtain ⟨rfl, hrest⟩ := attributeItem_append_inj h
      rw [ih hrest]

/-- The paragraph of a description can be taken off from the list that follows it. -/
theorem describe_append_inj {d d' : Option String} {r r' : List Char}
    (h : (Page.describe d).toList ++ ("<ul>".toList ++ r) =
      (Page.describe d').toList ++ ("<ul>".toList ++ r')) : d = d' ∧ r = r' := by
  cases d with
  | none =>
    cases d' with
    | none => exact ⟨rfl, List.append_cancel_left (List.append_cancel_left h)⟩
    -- One text starts with the tag of the list, the other with that of a paragraph.
    | some text => simp [Page.describe] at h
  | some text =>
    cases d' with
    | none => simp [Page.describe] at h
    | some text' =>
      have hparagraph : ∀ (text : String) (r : List Char),
          (Page.describe (some text)).toList ++ r =
            "<p>".toList ++ ((escape text).toList ++ '<' :: ("/p>".toList ++ r)) := by
        intro text r
        simp [Page.describe]
      rw [hparagraph, hparagraph] at h
      obtain ⟨rfl, hrest⟩ := escape_append_inj (List.append_cancel_left h)
      exact ⟨rfl, List.append_cancel_left (List.append_cancel_left hrest)⟩

end Page

open Page

theorem toList_nodeSummary (n : Node) :
    (nodeSummary n).toList =
      "<b>".toList ++ ((escape n.name).toList ++ '<' :: ("/b><i>".toList ++
        ((escape n.nodeType).toList ++ '<' :: ("/i>".toList ++
          ((Page.describe n.description).toList ++ ("<ul>".toList ++
            ((String.join (n.attributes.entries.map attributeItem)).toList ++
              "</ul>".toList))))))) := by
  simp [nodeSummary]

/-- **Nodes with the same summary** are those with the same name, type, description and
attributes. -/
theorem nodeSummary_eq_iff (x y : Node) :
    nodeSummary x = nodeSummary y ↔
      x.name = y.name ∧ x.nodeType = y.nodeType ∧ x.description = y.description ∧
        x.attributes.entries = y.attributes.entries := by
  constructor
  · intro h
    have htext := congrArg String.toList h
    rw [toList_nodeSummary, toList_nodeSummary] at htext
    -- From left to right: each text ends at the next tag.
    obtain ⟨hname, htext⟩ := escape_append_inj (List.append_cancel_left htext)
    obtain ⟨htype, htext⟩ := escape_append_inj (List.append_cancel_left htext)
    obtain ⟨hdescription, htext⟩ := describe_append_inj (List.append_cancel_left htext)
    exact ⟨hname, htype, hdescription, attributeItems_inj htext⟩
  · rintro ⟨hname, htype, hdescription, hentries⟩
    rw [nodeSummary, nodeSummary, hname, htype, hdescription, hentries]

namespace Page

/-! ## Tags -/

/-- The tags of summaries. -/
def tags : List (List Char) :=
  ["<b>", "</b>", "<i>", "</i>", "<p>", "</p>", "<ul>", "</ul>", "<li>", "</li>"].map String.toList

/-- A text in which every `<` starts a tag. -/
def Tagged (cs : List Char) : Prop :=
  ∀ before after, cs = before ++ '<' :: after → ∃ tag ∈ tags, tag <+: '<' :: after

theorem tagged_iff_tails {cs : List Char} :
    Tagged cs ↔ ∀ rest ∈ cs.tails, rest.head? = some '<' → ∃ tag ∈ tags, tag <+: rest := by
  constructor
  · intro h rest hrest hhead
    obtain ⟨before, rfl⟩ := (List.mem_tails _ _).mp hrest
    obtain ⟨after, rfl⟩ := List.head?_eq_some_iff.mp hhead
    exact h before after rfl
  · rintro h before after rfl
    exact h ('<' :: after) ((List.mem_tails _ _).mpr (List.suffix_append _ _)) rfl

instance (cs : List Char) : Decidable (Tagged cs) :=
  decidable_of_iff _ tagged_iff_tails.symm

section Tagged

variable {cs ds : List Char}

theorem Tagged.of_notMem (h : '<' ∉ cs) : Tagged cs := by
  rintro before after rfl
  exact absurd (List.mem_append_right before List.mem_cons_self) h

theorem Tagged.append (hcs : Tagged cs) (hds : Tagged ds) : Tagged (cs ++ ds) := by
  intro before after h
  rcases List.append_eq_append_iff.mp h with ⟨more, rfl, hmore⟩ | ⟨more, rfl, hmore⟩
  · exact hds more after hmore
  · cases more with
    | nil => exact hds [] after hmore.symm
    | cons c more =>
      -- The tag stands in the first text, whatever follows it there.
      obtain ⟨rfl, rfl⟩ := List.cons.inj hmore
      obtain ⟨tag, htag, hstarts⟩ := hcs before more rfl
      exact ⟨tag, htag, hstarts.trans (List.prefix_append _ _)⟩

theorem Tagged.flatMap {α : Type} {f : α → List Char} {xs : List α} (h : ∀ x ∈ xs, Tagged (f x)) :
    Tagged (xs.flatMap f) := by
  induction xs with
  | nil => exact .of_notMem List.not_mem_nil
  | cons x xs ih =>
    obtain ⟨hx, hxs⟩ := List.forall_mem_cons.mp h
    rw [List.flatMap_cons]
    exact hx.append (ih hxs)

theorem Tagged.intercalate {sep : List Char} {texts : List (List Char)} (hsep : Tagged sep)
    (h : ∀ text ∈ texts, Tagged text) : Tagged (sep.intercalate texts) := by
  induction texts with
  | nil => exact .of_notMem List.not_mem_nil
  | cons text texts ih =>
    obtain ⟨htext, htexts⟩ := List.forall_mem_cons.mp h
    cases texts with
    | nil => rwa [List.intercalate_singleton]
    | cons text' texts =>
      rw [List.intercalate_cons_cons]
      exact (htext.append hsep).append (ih htexts)

theorem tagged_escape (s : String) : Tagged (escape s).toList :=
  .of_notMem (less_notMem_escape s)

theorem tagged_attributeItem (e : String × String) : Tagged (attributeItem e).toList := by
  have hopen : Tagged "<li><b>".toList := by decide
  have hbetween : Tagged "</b>: ".toList := by decide
  have hclose : Tagged "</li>".toList := by decide
  simp only [attributeItem, String.toList_append]
  exact (((hopen.append (tagged_escape e.1)).append hbetween).append (tagged_escape e.2)).append
    hclose

theorem tagged_describe (d : Option String) : Tagged (Page.describe d).toList := by
  cases d with
  | none => decide
  | some text =>
    have hopen : Tagged "<p>".toList := by decide
    have hclose : Tagged "</p>".toList := by decide
    simp only [Page.describe, String.toList_append]
    exact (hopen.append (tagged_escape text)).append hclose

/-- **Every `<` of a summary starts a tag.** -/
theorem tagged_nodeSummary (n : Node) : Tagged (nodeSummary n).toList := by
  have hopen : Tagged "<b>".toList := by decide
  have hbetween : Tagged "</b><i>".toList := by decide
  have hclose : Tagged "</i>".toList := by decide
  have hlist : Tagged "<ul>".toList := by decide
  have hend : Tagged "</ul>".toList := by decide
  have hitems : Tagged (String.join (n.attributes.entries.map attributeItem)).toList := by
    rw [String.toList_join]
    refine .flatMap fun item hitem => ?_
    obtain ⟨e, -, rfl⟩ := List.mem_map.mp hitem
    exact tagged_attributeItem e
  have hhead := (((hopen.append (tagged_escape n.name)).append hbetween).append
    (tagged_escape n.nodeType)).append hclose
  simp only [nodeSummary, String.toList_append]
  exact (((hhead.append (tagged_describe n.description)).append hlist).append hitems).append hend

/-! ## String literals -/

/-- A string literal has a `<` only where its text has one. -/
theorem eq_less_of_mem_escapeChar {c : Char} (h : '<' ∈ Json.escapeChar c) : c = '<' := by
  have hdigit : ∀ n < 0x20, '<' ≠ Text.hexDigit (n / 16) ∧ '<' ≠ Text.hexDigit (n % 16) := by
    decide
  unfold Json.escapeChar at h
  split_ifs at h with _ _ _ _ _ _ _ hcontrol
  -- The short escapes and the digits of the long one are other characters.
  · simp at h
  · simp at h
  · simp at h
  · simp at h
  · simp at h
  · simp at h
  · simp at h
  · obtain ⟨hfirst, hsecond⟩ := hdigit _ hcontrol
    simp [hfirst, hsecond] at h
  · exact (List.mem_singleton.mp h).symm

/-- What follows a `<` of a string literal is the literal of what follows it in the text. -/
theorem exists_of_flatMap_escapeChar {before after : List Char}
    (h : cs.flatMap Json.escapeChar = before ++ '<' :: after) :
    ∃ b a, cs = b ++ '<' :: a ∧ after = a.flatMap Json.escapeChar := by
  induction cs generalizing before with
  | nil => simp at h
  | cons c cs ih =>
    rw [List.flatMap_cons] at h
    rcases List.append_eq_append_iff.mp h with ⟨more, -, hmore⟩ | ⟨more, hc, hmore⟩
    · obtain ⟨b, a, rfl, rfl⟩ := ih hmore
      exact ⟨c :: b, a, rfl, rfl⟩
    · cases more with
      | nil =>
        obtain ⟨b, a, rfl, rfl⟩ := @ih [] hmore.symm
        exact ⟨c :: b, a, rfl, rfl⟩
      | cons d more =>
        -- The first character is the one, and it is not escaped.
        obtain ⟨rfl, rfl⟩ := List.cons.inj hmore
        have hless : c = '<' := eq_less_of_mem_escapeChar (by simp [hc])
        subst hless
        have hself : Json.escapeChar '<' = ['<'] := by decide
        have hlength := congrArg List.length (hself.symm.trans hc)
        simp only [List.length_append, List.length_cons, List.length_nil] at hlength
        obtain rfl : more = [] := List.eq_nil_of_length_eq_zero (by omega)
        exact ⟨[], cs, rfl, rfl⟩

/-- **String literals keep tags.** -/
theorem Tagged.escaped (h : Tagged cs) : Tagged (cs.flatMap Json.escapeChar) := by
  intro before after hsplit
  obtain ⟨b, a, rfl, rfl⟩ := exists_of_flatMap_escapeChar hsplit
  obtain ⟨tag, htag, rest, hrest⟩ := h b a rfl
  -- No character of a tag is escaped.
  have hself : ∀ tag ∈ tags, tag.flatMap Json.escapeChar = tag := by decide
  refine ⟨tag, htag, rest.flatMap Json.escapeChar, ?_⟩
  have hliteral := congrArg (List.flatMap Json.escapeChar) hrest
  rwa [List.flatMap_append, hself tag htag] at hliteral

theorem tagged_quote {s : String} (h : Tagged s.toList) : Tagged (Json.quote s).toList := by
  have hmark : Tagged "\"".toList := by decide
  simp only [Json.quote, String.toList_append, String.toList_ofList]
  exact (hmark.append h.escaped).append hmark

/-! ## The data of a page -/

theorem tagged_keyText (id : NodeId) : Tagged (keyText id).toList :=
  .of_notMem (Flowchart.notMem_keyText (by decide) (by decide) id)

/-- A text that starts with `<` as no tag does stands nowhere among tags. -/
theorem Tagged.not_isInfix {w : List Char} (h : Tagged cs) (hhead : w.head? = some '<')
    (hw : ∀ tag ∈ tags, ¬ tag <+: w ∧ ¬ w <+: tag) : ¬ w <:+: cs := by
  rintro ⟨before, after, hcs⟩
  obtain ⟨rest, rfl⟩ := List.head?_eq_some_iff.mp hhead
  obtain ⟨tag, htag, hstarts⟩ := h before (rest ++ after) (by simp [← hcs])
  -- Both start the same text, so one of them starts the other.
  rcases List.prefix_or_prefix_of_prefix hstarts (List.prefix_append ('<' :: rest) after) with
    hword | hword
  · exact (hw tag htag).1 hword
  · exact (hw tag htag).2 hword

theorem eq_less_of_toLower {c : Char} (h : c.toLower = '<') : c = '<' := by
  have halpha : c.isAlpha = false := by
    rw [← Char.isAlpha_toLower_eq_isAlpha, h]
    rfl
  have hupper : ¬ c.isUpper = true := by simp_all [Char.isAlpha]
  rwa [Char.toLower_eq_of_not_isUpper hupper] at h

/-- Neither mark stands among tags, in whatever case its letters are. -/
theorem Tagged.not_isInfix_of_toLower {w : List Char} (h : Tagged cs)
    (hw : w.map Char.toLower ∈ ["</script".toList, "<!--".toList]) : ¬ w <:+: cs := by
  -- A tag has no capital letters, so that it starts a text or not is seen in small letters.
  have hsmall : ∀ word ∈ ["</script".toList, "<!--".toList], ∀ tag ∈ tags,
      ¬ tag.map Char.toLower <+: word ∧ ¬ word <+: tag.map Char.toLower := by
    decide
  apply h.not_isInfix
  · obtain ⟨word, hword⟩ : ∃ word, w.map Char.toLower = '<' :: word := by
      simp only [List.mem_cons, List.not_mem_nil, or_false] at hw
      rcases hw with hw | hw
      · exact ⟨_, hw⟩
      · exact ⟨_, hw⟩
    obtain ⟨c, w, rfl, hc, -⟩ := List.map_eq_cons_iff.mp hword
    rw [eq_less_of_toLower hc, List.head?_cons]
  · intro tag htag
    obtain ⟨htagw, hwtag⟩ := hsmall _ hw tag htag
    exact ⟨fun hstarts => htagw (hstarts.map _), fun hstarts => hwtag (hstarts.map _)⟩

end Tagged

/-- The members of the data: the name of a node in the flowchart, and its summary. -/
theorem toList_compact_nodeInfo (g : Graph) :
    (nodeInfo g).compact.toList =
      "\x7b".toList ++ ",".toList.intercalate ((Text.byKey (g.nodes.toList.map fun node =>
        (keyText node.id, Json.string (nodeSummary node)))).map fun m =>
          (Json.quote m.1).toList ++ ":".toList ++ m.2.compact.toList) ++ "\x7d".toList := by
  simp only [nodeInfo, Json.ofMembers, Json.compact, Json.Layout.compactMembers_eq,
    String.toList_append, String.toList_intercalate, List.map_map, Function.comp_def]

theorem tagged_compact_nodeInfo (g : Graph) : Tagged (nodeInfo g).compact.toList := by
  have hopen : Tagged "\x7b".toList := by decide
  have hcolon : Tagged ":".toList := by decide
  have hcomma : Tagged ",".toList := by decide
  have hclose : Tagged "\x7d".toList := by decide
  rw [toList_compact_nodeInfo]
  refine (hopen.append (hcomma.intercalate fun text htext => ?_)).append hclose
  obtain ⟨member, hmember, rfl⟩ := List.mem_map.mp htext
  obtain ⟨n, -, rfl⟩ := List.mem_map.mp (Text.mem_of_mem_byKey hmember)
  exact ((tagged_quote (tagged_keyText n.id)).append hcolon).append
    (tagged_quote (tagged_nodeSummary n))

/-- The data holds the summary of a node that shares its name in the flowchart with no other. -/
theorem isInfix_summary_of_mem_nodes {g : Graph} {n : Node} (hn : n ∈ g.nodes.toList)
    (hown : ∀ m ∈ g.nodes.toList, keyText m.id = keyText n.id → m = n) :
    (Json.quote (nodeSummary n)).toList <:+: (nodeInfo g).compact.toList := by
  have hmember : (keyText n.id, Json.string (nodeSummary n)) ∈ Text.byKey
      (g.nodes.toList.map fun node => (keyText node.id, Json.string (nodeSummary node))) := by
    apply Text.mem_byKey
    · exact List.mem_map_of_mem hn
    · intro q hq hkey
      obtain ⟨m, hm, rfl⟩ := List.mem_map.mp hq
      rw [hown m hm hkey]
  rw [toList_compact_nodeInfo]
  refine List.IsInfix.trans ?_ (List.infix_append _ _ _)
  refine List.IsInfix.trans ?_ (Text.isInfix_intercalate (List.mem_map_of_mem hmember))
  exact (List.suffix_append _ _).isInfix

/-- **Every `<` in the data of a page starts a tag**, whatever the graph. So the data holds neither
the mark that ends a script element nor the one that opens a comment, in whatever case its letters
are. It does hold the summaries: that of each node whose name in the flowchart is its own. And where
the data is drawn, it is this text. -/
theorem tagged_nodeInfo (g : Graph) :
    let data := (nodeInfo g).compact.toList
    (∀ before after, data = before ++ '<' :: after → ∃ tag ∈ tags, tag <+: '<' :: after) ∧
      (∀ w : List Char, w.map Char.toLower ∈ ["</script".toList, "<!--".toList] →
        ¬ w <:+: data) ∧
      (∀ n ∈ g.nodes.toList, (∀ m ∈ g.nodes.toList, keyText m.id = keyText n.id → m = n) →
        (Json.quote (nodeSummary n)).toList <:+: data) ∧
      ∀ text, drawNodeInfo g = .ok text → text.toList = data := by
  intro data
  have hdata : Tagged data := tagged_compact_nodeInfo g
  refine ⟨hdata, fun w hw => hdata.not_isInfix_of_toLower hw,
    fun n hn hown => isInfix_summary_of_mem_nodes hn hown, fun text htext => ?_⟩
  rw [← (naming_eq_ok_iff.mp htext).2]

end Page

end FlowDoc
