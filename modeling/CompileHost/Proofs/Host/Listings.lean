import CompileHost.Proofs.FileTree.Regular
import CompileHost.Proofs.Host.Incremental
import Mathlib.Data.List.Sort
import Mathlib.Data.String.Basic

/-!
# Listings of directories

A listing has what the names of the directories right in a directory are read as, in order.  It is
made of what the entries themselves are, while a probe for a directory follows links.  So a listing
leaves out the links to directories, and has all other entries that a probe finds.  Names that are
texts are read as they are, so each of them is listed once; other names may be read alike.

* `locate_below`: what is found by the path of an entry.
* `Regular.mem_directoryNames_iff`: the entries that are listed.
* `directories_iff_directoryExists`: listings and probes.
-/

namespace CompileHost.FileTree

open CompileHost.Path CompileHost.Text

variable {t : FileTree} {p : Place} {path e : RawText} {node : Node}

/-- The names of all entries of a directory. -/
def entryNames (t : FileTree) (path : RawText) : List RawText :=
  match t.locate true path with
  | .ok place => (t.children place).map (·.1)
  | .error _ => []

/-- The names of the directories right in a directory. -/
def directoryNames (t : FileTree) (path : RawText) : List RawText :=
  match t.locate true path with
  | .error _ => []
  | .ok place =>
    if t.node? place ≠ some .directory then []
    else (t.children place).filterMap fun (name, node) =>
      if node = .directory then some name else none

/-! ## Paths of entries -/

/-- The path of an entry, by the path of its directory. -/
def below (path e : RawText) : RawText :=
  ⟨(if path.bytes.getLast? = some RawText.slash then path.bytes
    else path.bytes ++ [RawText.slash]) ++ e.bytes⟩

/-- The path of an entry whose name is a text. -/
def entryPath (path e : String) : String :=
  (if path.toList.getLast? = some '/' then path else path ++ "/") ++ e

theorem ofText_entryPath (path e : String) : RawText.ofText (entryPath path e) = below path e := by
  have hEnd : (RawText.ofText path).bytes.getLast? = some RawText.slash ↔
      path.toList.getLast? = some '/' :=
    getLast?_utf8Bytes_iff (by decide)
  have hBytes : (RawText.ofText (entryPath path e)).bytes = (below path e).bytes := by
    rw [entryPath, RawText.ofText_append_bytes, below]
    simp only [hEnd]
    split
    · rfl
    · rw [RawText.ofText_append_bytes]
      rfl
  exact congrArg RawText.mk hBytes

/-- The names between the slashes of some bytes. -/
def namesBetween (bytes : List UInt8) : List RawText :=
  ((splitAt RawText.slash bytes).map RawText.mk).filter (·.bytes ≠ [])

theorem names_append_slash (hName : IsStep e) (bytes : List UInt8) :
    names ⟨bytes ++ RawText.slash :: e.bytes⟩ = namesBetween bytes ++ [e] := by
  have hEnd : (bytes ++ RawText.slash :: e.bytes).getLast? ≠ some RawText.slash := by
    rw [List.append_cons, List.getLast?_append, List.getLast?_eq_some_getLast hName.ne_empty,
      Option.some_or]
    intro h
    exact hName.no_slash (Option.some.inj h ▸ List.getLast_mem hName.ne_empty)
  have hKept : [e].filter (·.bytes ≠ []) = [e] :=
    List.filter_eq_self.2 (List.forall_mem_singleton.2 (decide_eq_true hName.ne_empty))
  rw [names, splitAt_append_sep, splitAt_of_not_mem hName.no_slash, if_neg hEnd, List.append_nil,
    List.map_append, List.filter_append]
  exact congrArg (namesBetween bytes ++ ·) hKept

theorem names_of_slash (bytes : List UInt8) :
    names ⟨bytes ++ [RawText.slash]⟩ = namesBetween bytes ++ [("." : RawText)] := by
  have hEnd : (bytes ++ [RawText.slash]).getLast? = some RawText.slash := List.getLast?_concat
  have hNone : ((splitAt RawText.slash []).map RawText.mk).filter (·.bytes ≠ []) = [] := rfl
  rw [names, splitAt_append_sep, if_pos hEnd, List.map_append, List.filter_append, hNone,
    List.append_nil]
  rfl

/-- The names of the path of an entry, by those of the path of its directory. -/
theorem names_below (hName : IsStep e) (path : RawText) :
    ∃ xs, names (below path e) = xs ++ [e] ∧
      (names path = xs ∨ names path = xs ++ [("." : RawText)]) := by
  unfold below
  split
  next hEnd =>
    obtain ⟨front, hFront⟩ := List.getLast?_eq_some_iff.1 hEnd
    have hPath : path = ⟨front ++ [RawText.slash]⟩ := congrArg RawText.mk hFront
    rw [hPath, List.append_assoc]
    exact ⟨_, names_append_slash hName front, .inr (names_of_slash front)⟩
  next hEnd =>
    rw [List.append_assoc]
    refine ⟨_, names_append_slash hName path.bytes, .inl ?_⟩
    rw [names, if_neg hEnd, List.append_nil]
    rfl

theorem start_below (hSome : path.bytes ≠ []) (directory : Place) :
    start directory (below path e) = start directory path := by
  obtain ⟨b, bs, hBytes⟩ := List.exists_cons_of_ne_nil hSome
  have hHead : (below path e).bytes.head? = path.bytes.head? := by
    unfold below
    split <;> simp [hBytes]
  rw [start, start, hHead]

theorem locate_below (hPath : t.locate true path = .ok p) (hName : IsStep e)
    (hFits : Fits (below path e)) :
    ∃ links, ∀ follow, t.locate follow (below path e) = t.walk .name follow links p [e] := by
  have hSome : path.bytes ≠ [] := fun hNil => ne_empty_of_locate hPath (congrArg RawText.mk hNil)
  have hEntry : below path e ≠ "" := fun hEmpty =>
    hName.ne_empty (List.append_eq_nil_iff.1 (congrArg RawText.bytes hEmpty)).2
  obtain ⟨xs, hNames, hDirectory⟩ := names_below hName path
  obtain ⟨n, hn, hReaches⟩ := reaches_of_walk (walk_of_locate hPath)
  have hAbove : Reaches t .name n (start t.workingDirectory path) xs p := by
    -- a slash at the end of the path is a last step that stays where it is
    rcases hDirectory with hSame | hDot
    · rwa [hSame] at hReaches
    · rw [hDot] at hReaches
      exact (reaches_concat_dot_iff.1 hReaches).1
  refine ⟨linkLimit - n, fun follow => ?_⟩
  rw [locate_of_fits hEntry hFits, hNames, start_below hSome,
    ← hAbove.walk_append (.inl (List.cons_ne_nil _ _)), Nat.add_sub_cancel' hn]

/-! ## Listings -/

theorem node?_of_walk_cons {links : Nat} {q : Place} {xs : List RawText}
    (h : t.walk .name true links p (e :: xs) = .ok q) : t.node? p = some .directory := by
  obtain ⟨n, -, hReaches⟩ := reaches_of_walk h
  cases hReaches with
  | stays hOpen => exact hOpen.directory
  | rises hOpen => exact hOpen.directory
  | descends hSeek => exact hSeek.directory
  | follows hSeek => exact hSeek.directory

theorem isDirectory_iff :
    t.isDirectory path = true ↔
      ∃ p, t.locate true path = .ok p ∧ t.node? p = some .directory := by
  rw [isDirectory, lookup]
  cases hPath : t.locate true path with
  | error fault => simp [Except.bind]
  | ok p =>
    cases hNode : t.node? p with
    | none => simp [Except.bind, hNode]
    | some node => cases node <;> simp [Except.bind, hNode]

theorem isDirectory_iff_of_locate (hPath : t.locate true path = .ok p) :
    t.isDirectory path = true ↔ t.node? p = some .directory := by
  rw [isDirectory_iff, hPath]
  exact ⟨fun ⟨q, hSame, hNode⟩ => Except.ok.inj hSame ▸ hNode, fun hNode => ⟨p, rfl, hNode⟩⟩

/-- An entry is a directory if a probe by its path finds one, and there is no link. -/
theorem eq_directory_iff (hPath : t.locate true path = .ok p)
    (hDirectory : t.node? p = some .directory) (hName : IsEntryName e)
    (hFits : Fits (below path e)) (hNode : t.node? (p ++ [e]) = some node) :
    node = .directory ↔
      t.isDirectory (below path e) = true ∧ t.isLink (below path e) = false := by
  obtain ⟨links, hLocate⟩ := locate_below hPath hName.toIsStep hFits
  have hSeek := seeks_of_isEntryName hDirectory hName
  have hLast : t.locate false (below path e) = .ok (p ++ [e]) := by
    rw [hLocate, walk_last hSeek hNode]
  by_cases hLink : ∃ target, node = .link target
  · obtain ⟨target, rfl⟩ := hLink
    refine iff_of_false nofun fun h => ?_
    rw [isLink, hLast] at h
    simp [hNode] at h
  · have hPlain : ∀ target, node ≠ .link target := fun target hSame => hLink ⟨target, hSame⟩
    have hReaches : Reaches t .name 0 p [e] (p ++ [e]) :=
      .descends hSeek hNode hPlain (.arrived _)
    have hThere : t.locate true (below path e) = .ok (p ++ [e]) := by
      rw [hLocate, hReaches.walk_eq_of_le (Nat.zero_le links)]
    have hNoLink : t.isLink (below path e) = false := by
      rw [isLink, hLast]
      cases node with
      | link target => exact absurd rfl (hPlain target)
      | _ => simp [hNode]
    rw [isDirectory_iff_of_locate hThere, hNode]
    simp [hNoLink]

theorem mem_directoryNames_iff :
    e ∈ t.directoryNames path ↔ ∃ p, t.locate true path = .ok p ∧
      t.node? p = some .directory ∧ (e, Node.directory) ∈ t.children p := by
  rw [directoryNames]
  cases hPath : t.locate true path with
  | error fault => simp
  | ok p =>
    by_cases hDirectory : t.node? p = some .directory
    · simp [hDirectory]
    · simp [hDirectory]

theorem mem_entryNames_iff :
    e ∈ t.entryNames path ↔ ∃ p node, t.locate true path = .ok p ∧ (e, node) ∈ t.children p := by
  rw [entryNames]
  cases hPath : t.locate true path with
  | error fault => simp
  | ok p => simp

/-- A listing has what the names of directories are read as. -/
theorem directories_eq (t : FileTree) (path : String) :
    t.directories path =
      ((t.directoryNames path).map RawText.text).mergeSort fun a b => a ≤ b := by
  rw [directories, directoryNames]
  cases t.locate true path with
  | error fault => simp
  | ok p =>
    dsimp only
    split
    · simp
    · rw [List.map_filterMap]
      congr 2
      funext ⟨name, node⟩
      cases node <;> rfl

theorem Regular.nodup_directoryNames (ht : t.Regular) (path : RawText) :
    (t.directoryNames path).Nodup := by
  rw [directoryNames]
  split
  · exact .nil
  · split
    · exact .nil
    · refine List.Nodup.filterMap ?_ (ht.nodup_children _)
      intro a b e ha hb
      obtain ⟨hDirectory, hName⟩ := Option.ite_none_right_eq_some.1 ha
      obtain ⟨hDirectory', hName'⟩ := Option.ite_none_right_eq_some.1 hb
      exact Prod.ext (Option.some.inj (hName.trans hName'.symm))
        (hDirectory.trans hDirectory'.symm)

/-- The entries that are listed. -/
theorem Regular.mem_directoryNames_iff (ht : t.Regular) (hFits : Fits (below path e)) :
    e ∈ t.directoryNames path ↔ e ∈ t.entryNames path ∧
      t.isDirectory (below path e) = true ∧ t.isLink (below path e) = false := by
  rw [FileTree.mem_directoryNames_iff, mem_entryNames_iff]
  constructor
  · rintro ⟨p, hPath, hDirectory, hChild⟩
    have hName := ht.isEntryName_of_mem_children hChild
    have hNode := ht.node?_of_mem_children hChild
    exact ⟨⟨p, _, hPath, hChild⟩, (eq_directory_iff hPath hDirectory hName hFits hNode).1 rfl⟩
  · rintro ⟨⟨p, node, hPath, hChild⟩, hProbe⟩
    have hName := ht.isEntryName_of_mem_children hChild
    have hNode := ht.node?_of_mem_children hChild
    have hDirectory : t.node? p = some .directory := by
      obtain ⟨q, hThere, -⟩ := isDirectory_iff.1 hProbe.1
      obtain ⟨links, hLocate⟩ := locate_below hPath hName.toIsStep hFits
      rw [hLocate] at hThere
      exact node?_of_walk_cons hThere
    obtain rfl := (eq_directory_iff hPath hDirectory hName hFits hNode).2 hProbe
    exact ⟨p, hPath, hDirectory, hChild⟩

theorem mem_entryNames_of_mem_directoryNames (he : e ∈ t.directoryNames path) :
    e ∈ t.entryNames path := by
  obtain ⟨p, hPath, -, hChild⟩ := FileTree.mem_directoryNames_iff.1 he
  exact mem_entryNames_iff.2 ⟨p, _, hPath, hChild⟩

theorem pairwise_directories (t : FileTree) (path : String) :
    (t.directories path).Pairwise (· ≤ ·) := by
  rw [directories_eq]
  exact List.pairwise_mergeSort' (· ≤ ·) _

theorem mem_directories_iff {path s : String} :
    s ∈ t.directories path ↔ ∃ e ∈ t.directoryNames path, e.text = s := by
  rw [directories_eq, List.mem_mergeSort, List.mem_map]

section Texts

variable {path : String} (hText : ∀ e ∈ t.entryNames path, e.IsText)
include hText

/-- Names that are texts are listed once. -/
theorem Regular.pairwise_directories_lt (ht : t.Regular) :
    (t.directories path).Pairwise (· < ·) := by
  have hDistinct : (t.directories path).Nodup := by
    rw [directories_eq, (List.mergeSort_perm _ _).nodup_iff]
    refine List.Nodup.map_on (fun a ha b hb hSame => ?_) (ht.nodup_directoryNames path)
    rw [← hText a (mem_entryNames_of_mem_directoryNames ha), hSame,
      hText b (mem_entryNames_of_mem_directoryNames hb)]
  exact (pairwise_directories t path).imp₂ (fun _ _ => lt_of_le_of_ne) hDistinct

theorem mem_directories_iff_of_isText {s : String} :
    s ∈ t.directories path ↔ (s : RawText) ∈ t.directoryNames path := by
  rw [mem_directories_iff]
  constructor
  · rintro ⟨e, he, rfl⟩
    rwa [hText e (mem_entryNames_of_mem_directoryNames he)]
  · exact fun hs => ⟨s, hs, RawText.text_ofText s⟩

end Texts

end CompileHost.FileTree

namespace CompileHost.Host

open CompileHost.FileTree

variable {P N : Type}

/-- **Listings and probes.**  A listing is in order, it is empty unless a probe finds a directory,
and it has what the names are read as of exactly the entries that are found to be directories, but
for those that are links.  If the names in the directory are texts, each is listed once and as it
is. -/
theorem directories_iff_directoryExists (w : World) (h : Host P N) (hTree : w.tree.Regular)
    (name : String) :
    let listed := (answer w h (.directories name)).2
    listed.Pairwise (· ≤ ·) ∧
      ((answer w h (.directoryExists name)).2 = false → listed = []) ∧
      (∃ found : List RawText, found.Nodup ∧ listed.Perm (found.map RawText.text) ∧
        ∀ e, Fits (below name e) → (e ∈ found ↔ e ∈ w.tree.entryNames name ∧
          w.tree.isDirectory (below name e) = true ∧ w.tree.isLink (below name e) = false)) ∧
      ((∀ e ∈ w.tree.entryNames name, e.IsText) → listed.Pairwise (· < ·) ∧
        ∀ e : String, Fits (entryPath name e) → (e ∈ listed ↔
          (e : RawText) ∈ w.tree.entryNames name ∧
          (answer w h (.directoryExists (entryPath name e))).2 = true ∧
          w.tree.isLink (entryPath name e) = false)) := by
  intro listed
  have hListed : listed = w.tree.directories name := rfl
  refine ⟨pairwise_directories w.tree name, fun hNone => ?_, ?_, fun hText => ?_⟩
  · refine List.eq_nil_iff_forall_not_mem.2 fun s hs => ?_
    obtain ⟨e, he, -⟩ := mem_directories_iff.1 hs
    obtain ⟨p, hPath, hDirectory, -⟩ := FileTree.mem_directoryNames_iff.1 he
    have hFound : w.tree.isDirectory name = true := isDirectory_iff.2 ⟨p, hPath, hDirectory⟩
    exact Bool.false_ne_true (hNone.symm.trans hFound)
  · refine ⟨w.tree.directoryNames name, hTree.nodup_directoryNames name, ?_,
      fun e hFits => hTree.mem_directoryNames_iff hFits⟩
    rw [hListed, directories_eq]
    exact List.mergeSort_perm _ _
  · refine ⟨hTree.pairwise_directories_lt hText, fun e hFits => ?_⟩
    have hProbe : (answer w h (.directoryExists (entryPath name e))).2 =
        w.tree.isDirectory (entryPath name e) := rfl
    rw [ofText_entryPath] at hFits hProbe ⊢
    rw [hProbe]
    exact (mem_directories_iff_of_isText hText).trans (hTree.mem_directoryNames_iff hFits)

/-- A directory beside a link that leads nowhere. -/
theorem directory_listed :
    let tree := [FileTree.Change.makeDirectory "/d/real", .makeLink "/d/link" "none"].foldl after
      ⟨[], []⟩
    let w : World := ⟨tree, ⟨[]⟩⟩
    let s : Settings := { hotReload := false, caseSensitive := some false }
    ∃ h, Host.build w s Engine.echo [] [] .basic = .ok h ∧ w.tree.Regular ∧
      Fits (entryPath "/d" "real") ∧ "real" ∈ (answer w h (.directories "/d")).2 ∧
      Fits (entryPath "/d" "link") ∧ "link" ∉ (answer w h (.directories "/d")).2 := by
  intro tree w s
  have hTree : w.tree.Regular := by
    have hLink : FileTree.Change.Named (.makeLink "/d/link" "none") := by
      have hLast : (names "/d/link").getLast? = some ("link" : RawText) := by decide +kernel
      rw [FileTree.Change.Named, hLast]
      rintro _ ⟨⟩
      decide
    exact regular_empty.after_foldl
      (List.forall_mem_cons.2 ⟨trivial, List.forall_mem_singleton.2 hLink⟩)
  have hReal : Fits (entryPath "/d" "real") := ⟨by decide, by decide⟩
  have hLink : Fits (entryPath "/d" "link") := ⟨by decide, by decide⟩
  have hText : ∀ e ∈ w.tree.entryNames "/d", e.IsText := by decide +kernel
  have hListed := fun h : Host String Unit =>
    ((directories_iff_directoryExists w h hTree "/d").2.2.2 hText).2
  refine ⟨_, rfl, hTree, hReal, (hListed _ "real" hReal).2 (by decide +kernel), hLink, ?_⟩
  exact (hListed _ "link" hLink).not.2 (by decide +kernel)

/-- A link to a directory, which a probe takes for one, and two directories with names that are read
as a name that neither has. -/
theorem link_to_directory_not_listed :
    let w : World := ⟨⟨[(["d"], .directory), (["d", "real"], .directory),
      (["d", "link"], .link "real"), (["r"], .directory), (["r", ⟨[0xfe]⟩], .directory),
      (["r", ⟨[0xff]⟩], .directory)], []⟩, ⟨[]⟩⟩
    let s : Settings := { hotReload := false, caseSensitive := some false }
    ∃ h, Host.build w s Engine.echo [] [] .basic = .ok h ∧
      (answer w h (.directories "/d")).2 = ["real"] ∧
      ("link" : RawText) ∈ w.tree.entryNames "/d" ∧
      (answer w h (.directoryExists (entryPath "/d" "link"))).2 = true ∧
      (answer w h (.directories "/r")).2 = ["\ufffd", "\ufffd"] ∧
      (answer w h (.directoryExists (entryPath "/r" "\ufffd"))).2 = false := by
  intro w s
  have hTwice : w.tree.directories "/r" = ["\ufffd", "\ufffd"] := by
    have hNames : (w.tree.directoryNames "/r").map RawText.text = List.replicate 2 "\ufffd" := by
      decide +kernel
    rw [directories_eq, hNames]
    exact List.perm_replicate.1 (List.mergeSort_perm _ _)
  exact ⟨_, rfl, by decide +kernel, by decide +kernel, by decide +kernel, hTwice,
    by decide +kernel⟩

end CompileHost.Host
