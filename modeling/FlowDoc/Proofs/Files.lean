import FlowDoc.Files.Tree
import FlowDoc.Proofs.Traversal

/-!
# Writing to a tree of files

A write changes one entry of a tree, which is that of a file or of none. So each path leads where it
led before, but for the path of this entry: it leads to the file with the new bytes. What was
written is read back from there, and no write makes a file go away.

## Main definitions

* `Target.after`: what a path leads to after a write
* `HasFile`: a path leads to a file

## Main results

* `textOf_bytesOf`: a text is read back from its bytes
* `walk_put`: where paths lead after a write
* `write_eq_ok_iff`: what a write does
* `read_of_write`: a text is read back
* `HasFile.of_write`, `HasFile.write`: a write makes a file, and files stay
-/

namespace FlowDoc.FileTree

/-! ## Texts as bytes -/

theorem toList_loop (bs : ByteArray) (i : Nat) (done : List UInt8) :
    ByteArray.toList.loop bs i done = done.reverse ++ bs.data.toList.drop i := by
  fun_induction ByteArray.toList.loop bs i done with
  | case1 i done hi ih =>
    have hlength : i < bs.data.toList.length := hi
    have hget : bs.get! i = bs.data.toList[i] := by simp [ByteArray.get!, hi]
    rw [ih, List.drop_eq_getElem_cons hlength, hget, List.reverse_cons, List.append_assoc]
    rfl
  | case2 i done hi =>
    rw [List.drop_eq_nil_of_le (Nat.not_lt.mp hi), List.append_nil]

/-- **A text is read back from its bytes.** -/
theorem textOf_bytesOf (text : String) : textOf (bytesOf text) = .ok text := by
  have hlist : bytesOf text = text.toByteArray.data.toList := by
    rw [bytesOf, String.toUTF8_eq_toByteArray, ByteArray.toList, toList_loop]
    rfl
  have hbytes : (⟨(bytesOf text).toArray⟩ : ByteArray) = text.toByteArray := by
    rw [hlist, Array.toArray_toList]
  -- The bytes of a text are valid, so the test before reading succeeds.
  rw [textOf, hbytes, String.fromUTF8?, dif_pos text.isValidUTF8]
  rfl

/-! ## Entries -/

theorem lookup_filter (entries : List (List String × FileEntry)) (path here : List String) :
    (entries.filter (·.1 ≠ path)).lookup here =
      if here = path then none else entries.lookup here := by
  induction entries with
  | nil => simp
  | cons e entries ih =>
    by_cases he : e.1 = path
    · rw [List.filter_cons_of_neg (by simpa using he), ih, List.lookup_cons, he]
      split_ifs with hhere
      · rfl
      · rw [beq_false_of_ne hhere]
    · rw [List.filter_cons_of_pos (by simpa using he), List.lookup_cons, List.lookup_cons, ih]
      split_ifs with hhere
      · rw [hhere, beq_false_of_ne (Ne.symm he)]
      · rfl

theorem lookup_put (t : FileTree) (path here : List String) (entry : FileEntry) :
    (t.put path entry).entries.lookup here =
      if here = path then some entry else t.entries.lookup here := by
  rw [put, List.lookup_append, lookup_filter, List.lookup_cons]
  split_ifs with hhere
  · rw [hhere, beq_self_eq_true]
    rfl
  · rw [beq_false_of_ne hhere]
    exact Option.or_none

/-! ## Paths -/

namespace Target

/-- The entry that a write changes, which is not that of a folder. -/
def entry? : Target → Option (List String)
  | .folder _ => none
  | .file here _ => some here
  | .missing here => some here

/-- What a path leads to after bytes were written to an entry. -/
def after (path : List String) (bytes : List UInt8) : Target → Target
  | .folder here => .folder here
  | .file here former => .file here (if here = path then bytes else former)
  | .missing here => if here = path then .file here bytes else .missing here

theorem after_of_entry? {target : Target} {path : List String} (h : target.entry? = some path)
    (bytes : List UInt8) : target.after path bytes = .file path bytes := by
  cases target with
  | folder here => cases h
  | file here former =>
    obtain rfl := Option.some.inj h
    rw [after, if_pos rfl]
  | missing here =>
    obtain rfl := Option.some.inj h
    rw [after, if_pos rfl]

end Target

theorem lookup_of_walk {t : FileTree} {here names path : List String} {target : Target}
    (h : t.walk here names = .ok target) (hentry : target.entry? = some path) :
    t.entries.lookup path ≠ some .folder := by
  fun_induction walk t here names with
  | case1 here =>
    obtain rfl := Except.ok.inj h
    cases hentry
  | case2 here rest ih => exact ih h
  | case3 here rest _ ih => exact ih h
  | case4 here rest _ _ ih => exact ih h
  | case5 => cases h
  | case6 here name rest _ _ _ _ _ ih => exact ih h
  | case7 here name _ _ _ _ former hlookup =>
    obtain rfl := Except.ok.inj h
    obtain rfl := Option.some.inj hentry
    rw [hlookup]
    exact nofun
  | case8 => cases h
  | case9 here name _ _ _ _ hlookup =>
    obtain rfl := Except.ok.inj h
    obtain rfl := Option.some.inj hentry
    rw [hlookup]
    exact nofun
  | case10 => cases h

/-- **Where paths lead after a write.** -/
theorem walk_put {t : FileTree} {path here names : List String} {target : Target}
    (hpath : t.entries.lookup path ≠ some .folder) (h : t.walk here names = .ok target)
    (bytes : List UInt8) :
    (t.put path (.file bytes)).walk here names = .ok (target.after path bytes) := by
  -- The names are taken one by one, as the walk takes them; only the entry at the end can be the
  -- one that is written.
  fun_induction walk t here names with
  | case1 here =>
    obtain rfl := Except.ok.inj h
    rfl
  | case2 here rest ih =>
    rw [walk, if_pos rfl]
    exact ih h
  | case3 here rest hroot ih =>
    rw [walk, if_neg hroot, if_pos rfl]
    exact ih h
  | case4 here rest hroot hdot ih =>
    rw [walk, if_neg hroot, if_neg hdot, if_pos rfl]
    exact ih h
  | case5 => cases h
  | case6 here name rest hroot hdot hdots hshort hlookup ih =>
    -- A folder on the way has another path than the entry that is written, which is none.
    have hne : here ++ [name] ≠ path := fun heq => hpath (heq ▸ hlookup)
    rw [walk, if_neg hroot, if_neg hdot, if_neg hdots, if_neg hshort, lookup_put, if_neg hne,
      hlookup]
    exact ih h
  | case7 here name hroot hdot hdots hshort former hlookup =>
    obtain rfl := Except.ok.inj h
    rw [walk, if_neg hroot, if_neg hdot, if_neg hdots, if_neg hshort, lookup_put, Target.after]
    by_cases heq : here ++ [name] = path
    · rw [if_pos heq, if_pos heq]
      rfl
    · rw [if_neg heq, if_neg heq, hlookup]
      rfl
  | case8 => cases h
  | case9 here name hroot hdot hdots hshort hlookup =>
    obtain rfl := Except.ok.inj h
    rw [walk, if_neg hroot, if_neg hdot, if_neg hdots, if_neg hshort, lookup_put, Target.after]
    by_cases heq : here ++ [name] = path
    · rw [if_pos heq, if_pos heq]
      rfl
    · rw [if_neg heq, if_neg heq, hlookup]
      rfl
  | case10 => cases h

theorem resolve_put {t : FileTree} {here : List String} {path : String} {target : Target}
    (hhere : t.entries.lookup here ≠ some .folder) (h : t.resolve path = .ok target)
    (bytes : List UInt8) :
    (t.put here (.file bytes)).resolve path = .ok (target.after here bytes) := by
  obtain ⟨names, hnames, h⟩ := bind_eq_ok_iff.mp h
  split_ifs at h with hempty
  refine bind_eq_ok_iff.mpr ⟨names, hnames, ?_⟩
  rw [if_neg hempty]
  exact walk_put hhere h bytes

theorem lookup_of_resolve {t : FileTree} {path : String} {here : List String} {target : Target}
    (h : t.resolve path = .ok target) (hentry : target.entry? = some here) :
    t.entries.lookup here ≠ some .folder := by
  obtain ⟨names, -, h⟩ := bind_eq_ok_iff.mp h
  split_ifs at h
  exact lookup_of_walk h hentry

/-! ## Writes -/

/-- **What a write does**: it changes the entry that the path leads to. -/
theorem write_eq_ok_iff {t t' : FileTree} {path text : String} :
    t.write path text = .ok t' ↔
      Path.asksForFolder path = false ∧ ∃ target here, t.resolve path = .ok target ∧
        target.entry? = some here ∧ t' = t.put here (.file (bytesOf text)) := by
  constructor
  · intro h
    rw [write] at h
    split_ifs at h with hfolder
    · -- The folder is looked for only to tell why the write fails.
      obtain ⟨names, -, h⟩ := bind_eq_ok_iff.mp h
      obtain ⟨_, -, h⟩ := bind_eq_ok_iff.mp h
      cases h
    · obtain ⟨target, hresolve, h⟩ := bind_eq_ok_iff.mp h
      refine ⟨Bool.not_eq_true _ ▸ hfolder, target, ?_⟩
      cases target with
      | folder here => cases h
      | file here former =>
        obtain rfl := Except.ok.inj h
        exact ⟨here, hresolve, rfl, rfl⟩
      | missing here =>
        obtain rfl := Except.ok.inj h
        exact ⟨here, hresolve, rfl, rfl⟩
  · rintro ⟨hfolder, target, here, hresolve, hentry, rfl⟩
    rw [write, if_neg (ne_true_of_eq_false hfolder)]
    refine bind_eq_ok_iff.mpr ⟨target, hresolve, ?_⟩
    cases target with
    | folder here => cases hentry
    | file here former =>
      obtain rfl := Option.some.inj hentry
      rfl
    | missing here =>
      obtain rfl := Option.some.inj hentry
      rfl

/-- The path leads to a file. -/
def HasFile (t : FileTree) (path : String) : Prop :=
  ∃ here bytes, t.find path = .ok (.file here bytes)

theorem find_eq_file_iff {t : FileTree} {path : String} {here : List String} {bytes : List UInt8} :
    t.find path = .ok (.file here bytes) ↔
      Path.asksForFolder path = false ∧ t.resolve path = .ok (.file here bytes) := by
  constructor
  · intro h
    obtain ⟨target, hresolve, h⟩ := bind_eq_ok_iff.mp h
    cases target with
    | folder _ => cases h
    | file there former =>
      dsimp only at h
      split_ifs at h with hfolder
      obtain ⟨rfl, rfl⟩ := Target.file.inj (Except.ok.inj h)
      exact ⟨Bool.not_eq_true _ ▸ hfolder, hresolve⟩
    | missing _ => cases h
  · rintro ⟨hfolder, hresolve⟩
    refine bind_eq_ok_iff.mpr ⟨_, hresolve, ?_⟩
    dsimp only
    rw [if_neg (ne_true_of_eq_false hfolder)]
    rfl

theorem find_of_write {t t' : FileTree} {path text : String} (h : t.write path text = .ok t') :
    ∃ here, t'.find path = .ok (.file here (bytesOf text)) := by
  obtain ⟨hfolder, target, here, hresolve, hentry, rfl⟩ := write_eq_ok_iff.mp h
  have hput := resolve_put (lookup_of_resolve hresolve hentry) hresolve (bytesOf text)
  rw [Target.after_of_entry? hentry] at hput
  exact ⟨here, find_eq_file_iff.mpr ⟨hfolder, hput⟩⟩

/-- **What was written is read back.** -/
theorem read_of_write {t t' : FileTree} {path text : String} (h : t.write path text = .ok t') :
    t'.read path = .ok text := by
  obtain ⟨here, hfind⟩ := find_of_write h
  exact bind_eq_ok_iff.mpr ⟨_, hfind, textOf_bytesOf text⟩

theorem HasFile.of_write {t t' : FileTree} {path text : String} (h : t.write path text = .ok t') :
    t'.HasFile path := by
  obtain ⟨here, hfind⟩ := find_of_write h
  exact ⟨here, _, hfind⟩

/-- **Files stay** where others are written. -/
theorem HasFile.write {t t' : FileTree} {path other text : String} (hfile : t.HasFile path)
    (h : t.write other text = .ok t') : t'.HasFile path := by
  obtain ⟨here, bytes, hfind⟩ := hfile
  obtain ⟨hfolder, hresolve⟩ := find_eq_file_iff.mp hfind
  obtain ⟨-, target, there, hother, hentry, rfl⟩ := write_eq_ok_iff.mp h
  -- The path leads to the same entry as before, whose bytes may be the new ones.
  have hput := resolve_put (lookup_of_resolve hother hentry) hresolve (bytesOf text)
  exact ⟨here, _, find_eq_file_iff.mpr ⟨hfolder, hput⟩⟩

/-! ## Programs that write -/

theorem run_write_of_ok {t t' : FileTree} {path text : String} (h : t.write path text = .ok t') :
    (access.write path text).run t = (.ok (), t') := by
  show (update (t.write path text)).run t = _
  rw [h]
  rfl

theorem run_write_of_error {t : FileTree} {path text : String} {e : FileError}
    (h : t.write path text = .error e) : (access.write path text).run t = (.error e, t) := by
  show (update (t.write path text)).run t = _
  rw [h]
  rfl

end FlowDoc.FileTree
