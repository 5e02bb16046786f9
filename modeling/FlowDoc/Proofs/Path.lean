import FlowDoc.Files.Path
import FlowDoc.Proofs.Text.Parts

/-!
# Names along a path

A name without slashes that is joined to a path is the last name along the path, and the names
before it are those of the path. Whether a file name is plain is seen in its characters.

## Main results

* `parts_join`: the names along a path that goes on with a name
* `isPlainName_iff`: plain file names by their characters
* `splitName?_eq_some`: what stands before and after the last dot
-/

namespace FlowDoc.Path

/-! ## Joined paths -/

/-- The texts between slashes that are not empty. -/
def names (cs : List Char) : List String :=
  ((cs.splitOn '/').map String.ofList).filter (· ≠ "")

theorem parts_eq (path : String) :
    parts path =
      if ['/'] <+: path.toList then root :: names path.toList else names path.toList := by
  rw [parts, ← names]
  exact if_congr String.startsWith_string_iff rfl rfl

theorem names_append_slash (cs ds : List Char) :
    names (cs ++ '/' :: ds) = names cs ++ names ds := by
  have hsplit : (cs ++ '/' :: ds).splitOn '/' = cs.splitOn '/' ++ ds.splitOn '/' :=
    List.splitOnP_append_cons _ _ (beq_self_eq_true '/')
  rw [names, hsplit, List.map_append, List.filter_append, names, names]

theorem names_of_notMem {name : String} (hne : name ≠ "") (hslash : '/' ∉ name.toList) :
    names name.toList = [name] := by
  rw [names, List.splitOn_eq_singleton hslash, List.map_singleton, String.ofList_toList,
    List.filter_cons_of_pos (by simpa using hne), List.filter_nil]

theorem endsWith_iff {path : String} :
    path.endsWith "/" = true ↔ ∃ cs, path.toList = cs ++ ['/'] := by
  rw [String.endsWith_eq_endsWith_toSlice, String.Slice.endsWith_string_iff, String.copy_toSlice]
  exact exists_congr fun cs => eq_comm

/-- **The names along a path that goes on with a name.** -/
theorem parts_join (folder : String) {name : String} (hne : name ≠ "")
    (hslash : '/' ∉ name.toList) : parts (join folder name) = parts folder ++ [name] := by
  have hname := names_of_notMem hne hslash
  by_cases hempty : folder = ""
  · subst hempty
    have hstart : ¬ ['/'] <+: name.toList := fun h => hslash (h.subset List.mem_cons_self)
    rw [join, if_pos (.inl rfl), String.empty_append, parts_eq, if_neg hstart, hname]
    rfl
  · obtain ⟨c, cs, hfolder⟩ : ∃ c cs, folder.toList = c :: cs :=
      List.exists_cons_of_ne_nil fun h => hempty (String.toList_eq_nil_iff.mp h)
    -- The path starts as the folder does.
    have hstart : ∀ ds, (['/'] <+: folder.toList ++ ds) = (['/'] <+: folder.toList) := by
      intro ds
      simp [hfolder]
    have hjoined : ∃ ds, (join folder name).toList = folder.toList ++ ds ∧
        names (folder.toList ++ ds) = names folder.toList ++ [name] := by
      rw [join]
      split_ifs with hend
      · obtain ⟨ds, hds⟩ := endsWith_iff.mp (hend.resolve_left hempty)
        refine ⟨name.toList, String.toList_append, ?_⟩
        rw [hds, names_append_slash, List.append_assoc, List.singleton_append, names_append_slash,
          hname]
        simp [names]
      · refine ⟨'/' :: name.toList, by simp, ?_⟩
        rw [names_append_slash, hname]
    obtain ⟨ds, htext, hnames⟩ := hjoined
    rw [parts_eq, parts_eq, htext, hnames, if_congr (hstart ds).to_iff rfl rfl]
    split_ifs <;> rfl

/-! ## Plain file names -/

/-- **Plain file names by their characters**: they have no slashes, and are no places. -/
theorem isPlainName_iff {name : String} :
    isPlainName name = true ↔
      '/' ∉ name.toList ∧ '\\' ∉ name.toList ∧ name ≠ "" ∧ name ≠ "." ∧ name ≠ ".." := by
  simp only [isPlainName, Bool.and_eq_true, List.all_eq_true, decide_eq_true_eq, and_assoc]
  constructor
  · rintro ⟨hchars, hrest⟩
    exact ⟨fun h => (hchars _ h).1 rfl, fun h => (hchars _ h).2 rfl, hrest⟩
  · rintro ⟨hslash, hback, hrest⟩
    exact ⟨fun c hc => ⟨fun h => hslash (h ▸ hc), fun h => hback (h ▸ hc)⟩, hrest⟩

/-! ## Extensions -/

/-- **What stands before and after the last dot**: two texts with a dot between them, of which the
second one holds no dot and the first one is not empty. -/
theorem splitName?_eq_some {name before after : String}
    (h : splitName? name = some (before, after)) :
    name = before ++ "." ++ after ∧ '.' ∉ after.toList ∧ before ≠ "" := by
  rw [splitName?] at h
  split at h
  · cases h
  · rename_i after' before' hcut
    split_ifs at h with hempty
    obtain ⟨rfl, rfl⟩ := Prod.mk.inj (Option.some.inj h)
    have hname := congrArg List.reverse (Text.append_eq_of_cut hcut)
    refine ⟨String.toList_inj.mp ?_, ?_, ?_⟩
    · simpa using hname
    · simpa using Text.not_mem_of_cut_singleton hcut
    · simpa using hempty

end FlowDoc.Path
