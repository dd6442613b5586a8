import CompileHost.FileTree.Change
import CompileHost.Proofs.FileTree.Walk
import Mathlib.Data.List.Nodup

/-!
# Regular trees

In a regular tree every place is taken once, and by names that a walk can look up.  Trees stay
regular whatever is done to them, as long as links get such names: files are written and
directories are made at places that walks lead to, with names that walks have looked up.

* `Regular`, `Regular.node?_of_mem_children`: entries, and what is found at their places.
* `Reaches.proper`: walks lead to proper places.
* `Regular.makeDirectories`, `proper_destination`: what changes are made of.
* `Regular.apply`, `Regular.after`: changes keep a tree regular.
-/

namespace CompileHost.FileTree

open CompileHost.Text

variable {t t' : FileTree} {handle : Handle} {p q : Place} {xs : List RawText}
  {name e : RawText} {node : Node}

def Proper (p : Place) : Prop :=
  ∀ s ∈ p, IsEntryName s

structure Regular (t : FileTree) : Prop where
  nodup : (t.entries.map (·.1)).Nodup
  proper : ∀ entry ∈ t.entries, Proper entry.1
  workingDirectory : Proper t.workingDirectory

theorem Proper.concat (hp : Proper p) (hName : IsEntryName name) : Proper (p ++ [name]) :=
  List.forall_mem_append.2 ⟨hp, List.forall_mem_singleton.2 hName⟩

theorem Proper.dropLast (hp : Proper p) : Proper p.dropLast :=
  fun s hs => hp s (List.dropLast_subset p hs)

theorem Proper.start (hp : Proper p) (path : RawText) : Proper (start p path) := by
  unfold FileTree.start
  split
  · exact fun s hs => absurd hs List.not_mem_nil
  · exact hp

/-! ## Entries -/

/-- An entry right below a place, by its name. -/
def childOf (p : Place) (entry : Place × Node) : Option (RawText × Node) :=
  match entry.1.getLast? with
  | some name => if entry.1.dropLast = p then some (name, entry.2) else none
  | none => none

theorem children_eq (t : FileTree) (p : Place) : t.children p = t.entries.filterMap (childOf p) :=
  rfl

theorem childOf_eq_some_iff {entry : Place × Node} :
    childOf p entry = some (e, node) ↔ entry = (p ++ [e], node) := by
  constructor
  · intro hChild
    unfold childOf at hChild
    split at hChild
    next last hLast =>
      obtain ⟨rfl, hSame⟩ := Option.ite_none_right_eq_some.1 hChild
      cases hSame
      rw [List.dropLast_append_getLast? e hLast]
    · cases hChild
  · rintro rfl
    simp [childOf]

theorem mem_children_iff : (e, node) ∈ t.children p ↔ (p ++ [e], node) ∈ t.entries := by
  rw [children_eq, List.mem_filterMap]
  constructor
  · rintro ⟨entry, hEntry, hChild⟩
    rwa [← childOf_eq_some_iff.1 hChild]
  · exact fun hEntry => ⟨_, hEntry, childOf_eq_some_iff.2 rfl⟩

namespace Regular

theorem node?_of_mem (ht : t.Regular) (hEntry : (p, node) ∈ t.entries) (hSome : p ≠ []) :
    t.node? p = some node := by
  obtain ⟨found, hFound⟩ : ∃ found, t.entries.find? (·.1 = p) = some found :=
    Option.isSome_iff_exists.1 (List.find?_isSome.2 ⟨_, hEntry, by simp⟩)
  have hPlace : found.1 = p := by simpa using List.find?_some hFound
  have hSame : found = (p, node) :=
    List.inj_on_of_nodup_map ht.nodup (List.mem_of_find?_eq_some hFound) hEntry hPlace
  rw [node?, if_neg hSome, hFound, hSame]
  rfl

theorem node?_of_mem_children (ht : t.Regular) (hChild : (e, node) ∈ t.children p) :
    t.node? (p ++ [e]) = some node :=
  ht.node?_of_mem (mem_children_iff.1 hChild) (by simp)

theorem isEntryName_of_mem_children (ht : t.Regular) (hChild : (e, node) ∈ t.children p) :
    IsEntryName e :=
  ht.proper _ (mem_children_iff.1 hChild) e (by simp)

theorem nodup_children (ht : t.Regular) (p : Place) : (t.children p).Nodup := by
  rw [children_eq]
  refine List.Nodup.filterMap (fun a b child ha hb => ?_) ht.nodup.of_map
  rw [childOf_eq_some_iff.1 ha, childOf_eq_some_iff.1 hb]

end Regular

/-! ## Walks -/

/-- A walk from a proper place ends at one. -/
theorem Reaches.proper {n : Nat} (h : Reaches t handle n p xs q) (hp : Proper p)
    (hSteps : ∀ s ∈ xs, IsStep s) : Proper q := by
  induction h with
  | arrived p => exact hp
  | stays hOpen hRest ih => exact ih hp (List.forall_mem_cons.1 hSteps).2
  | rises hOpen hRest ih => exact ih hp.dropLast (List.forall_mem_cons.1 hSteps).2
  | descends hSeek hNode hPlain hRest ih =>
    obtain ⟨hName, hMore⟩ := List.forall_mem_cons.1 hSteps
    exact ih (hp.concat (hSeek.isEntryName hName)) hMore
  | follows hSeek hNode hRest ih =>
    refine ih (hp.start _) (List.forall_mem_append.2 ⟨fun s hs => isStep_of_mem_names hs, ?_⟩)
    exact (List.forall_mem_cons.1 hSteps).2

theorem proper_of_walk {links : Nat} (h : t.walk handle true links p xs = .ok q) (hp : Proper p)
    (hSteps : ∀ s ∈ xs, IsStep s) : Proper q := by
  obtain ⟨n, -, hReaches⟩ := reaches_of_walk h
  exact hReaches.proper hp hSteps

theorem walk_dot {links : Nat} :
    t.walk .name true links p ["."] =
      if t.node? p = some .directory then .ok p else .error .notADirectory := by
  unfold walk
  by_cases hDirectory : t.node? p = some .directory
  · rw [advance_dot ⟨rfl, hDirectory⟩, if_pos hDirectory]
    rfl
  · rw [advance_of_not_directory rfl hDirectory, if_neg hDirectory]

/-- What is missing is an entry that could be made. -/
theorem isEntryName_of_notFound {links : Nat} (hName : IsStep name)
    (h : t.walk .name true links p [name, "."] = .error .notFound) : IsEntryName name := by
  have hDirectory : t.node? p = some .directory := by
    by_contra hOther
    unfold walk at h
    rw [advance_of_not_directory rfl hOther] at h
    cases h
  have hOpen {name : RawText} : Opens t .name p name := ⟨rfl, hDirectory⟩
  have hDot : name ≠ "." := by
    rintro rfl
    rw [walk_congr (advance_dot hOpen), walk_dot, if_pos hDirectory] at h
    cases h
  have hUp : name ≠ ".." := by
    rintro rfl
    rw [walk_congr (advance_up hOpen), walk_dot] at h
    split at h <;> cases h
  refine ⟨⟨hName, hDot, hUp⟩, Nat.not_lt.1 fun hLong => ?_⟩
  unfold walk at h
  rw [advance_long hOpen hDot hUp hLong] at h
  cases h

/-! ## Changes -/

theorem exists_of_bind_eq_ok {α β : Type} {x : Except Fault α} {f : α → Except Fault β} {b : β}
    (h : x.bind f = .ok b) : ∃ a, x = .ok a ∧ f a = .ok b := by
  cases x with
  | error fault => cases h
  | ok a => exact ⟨a, rfl, h⟩

theorem exists_of_map_eq_ok {α β : Type} {x : Except Fault α} {f : α → β} {b : β}
    (h : x.map f = .ok b) : ∃ a, x = .ok a ∧ f a = b := by
  cases x with
  | error fault => cases h
  | ok a => exact ⟨a, rfl, Except.ok.inj h⟩

namespace Regular

theorem put (ht : t.Regular) (hp : Proper p) (node : Node) : (t.put p node).Regular where
  nodup := by
    have hOthers : (t.entries.filter (·.1 ≠ p)).Sublist t.entries := List.filter_sublist
    rw [FileTree.put, List.map_append, List.map_singleton, ← List.concat_eq_append]
    refine ((hOthers.map _).nodup ht.nodup).concat fun hMem => ?_
    obtain ⟨entry, hEntry, hPlace⟩ := List.mem_map.1 hMem
    exact of_decide_eq_true (List.mem_filter.1 hEntry).2 hPlace
  proper := by
    refine List.forall_mem_append.2 ⟨fun entry hEntry => ?_, List.forall_mem_singleton.2 hp⟩
    exact ht.proper entry (List.mem_filter.1 hEntry).1
  workingDirectory := ht.workingDirectory

theorem cutOff (ht : t.Regular) (p : Place) : (t.cutOff p).Regular where
  nodup := (List.filter_sublist.map _).nodup ht.nodup
  proper entry hEntry := ht.proper entry (List.mem_filter.1 hEntry).1
  workingDirectory := ht.workingDirectory

theorem makeDirectories (ht : t.Regular) (hp : Proper p)
    (hSteps : ∀ s ∈ xs, IsStep s)
    (h : t.makeDirectories p xs = .ok (t', q)) : t'.Regular ∧ Proper q := by
  induction xs generalizing t p with
  | nil =>
    cases h
    exact ⟨ht, hp⟩
  | cons name xs ih =>
    obtain ⟨hName, hMore⟩ := List.forall_mem_cons.1 hSteps
    rw [FileTree.makeDirectories] at h
    split at h
    next there hThere =>
      have hStep : ∀ s ∈ [name, "."], IsStep s :=
        List.forall_mem_cons.2 ⟨hName, List.forall_mem_singleton.2 isStep_dot⟩
      exact ih ht (proper_of_walk hThere hp hStep) hMore h
    next hMissing =>
      have hThere : Proper (p ++ [name]) := hp.concat (isEntryName_of_notFound hName hMissing)
      split at h
      · cases h
      · exact ih (ht.put hThere .directory) hThere hMore h
    · cases h

end Regular

theorem isEntryName_of_lookup (hName : IsStep name) (hDots : ¬ (name = "." ∨ name = ".."))
    (hLength : ¬ nameLimit < name.size) : IsEntryName name :=
  ⟨⟨hName, (not_or.1 hDots).1, (not_or.1 hDots).2⟩, Nat.not_lt.1 hLength⟩

theorem Regular.fill (ht : t.Regular) (hp : Proper p) (bytes : List UInt8) :
    (t.fill p bytes).Regular := by
  unfold FileTree.fill
  split
  · exact ht
  · exact ht.put hp _

/-- A file is written at a proper place, over links too. -/
theorem proper_destination {links : Nat} (hp : Proper p) (hName : IsStep name)
    (h : t.destination links p name = .ok q) : Proper q := by
  fun_induction destination t links p name with
  -- there is nothing at the place yet, or a file, or something else that takes bytes
  | case3 links directory name hDots hLength
  | case4 links directory name hDots hLength
  | case5 links directory name hDots hLength =>
    cases h
    exact hp.concat (isEntryName_of_lookup hName hDots hLength)
  -- there is a link, and the walk to the place that it names succeeds
  | case7 directory name hDots hLength target hNode steps links last hLast there hThere ih =>
    have hSteps : ∀ s ∈ steps, IsStep s := fun s hs => isStep_of_mem_names hs
    refine ih (proper_of_walk hThere (hp.start target) ?_) (hSteps last ?_) h
    · refine List.forall_mem_append.2 ⟨fun s hs => ?_, List.forall_mem_singleton.2 isStep_dot⟩
      exact hSteps s (List.dropLast_subset _ hs)
    · exact List.mem_of_getLast? hLast
  | _ => cases h

/-- A change that gives a link a name that an entry can have, if it makes one. -/
def Change.Named : Change → Prop
  | .makeLink path _ => ∀ name ∈ (names path).getLast?, IsEntryName name
  | _ => True

theorem Regular.prepare {path : RawText} (ht : t.Regular)
    (h : t.prepare path = .ok (t', p, name)) :
    t'.Regular ∧ Proper p ∧ (names path).getLast? = some name := by
  unfold FileTree.prepare at h
  dsimp only at h
  split at h
  · cases h
  next last hLast =>
    obtain ⟨⟨made, there⟩, hMade, hSame⟩ := exists_of_map_eq_ok h
    cases hSame
    obtain ⟨hRegular, hPlace⟩ := ht.makeDirectories (ht.workingDirectory.start path)
      (fun s hs => isStep_of_mem_names (List.dropLast_subset _ hs)) hMade
    exact ⟨hRegular, hPlace, hLast⟩

/-- A change keeps a tree regular. -/
theorem Regular.apply {change : Change} (ht : t.Regular) (hNamed : change.Named)
    (h : t.apply change = .ok t') : t'.Regular := by
  cases change with
  | write path bytes =>
    obtain ⟨⟨made, directory, name⟩, hPrepared, hWritten⟩ := exists_of_bind_eq_ok h
    obtain ⟨place, hPlace, rfl⟩ := exists_of_map_eq_ok hWritten
    obtain ⟨hMade, hDirectory, hLast⟩ := ht.prepare hPrepared
    have hName := isStep_of_mem_names (List.mem_of_getLast? hLast)
    exact hMade.fill (proper_destination hDirectory hName hPlace) _
  | makeDirectory path =>
    obtain ⟨⟨made, there⟩, hMade, rfl⟩ := exists_of_map_eq_ok h
    exact (ht.makeDirectories (ht.workingDirectory.start path)
      (fun s hs => isStep_of_mem_names hs) hMade).1
  | makeLink path target =>
    obtain ⟨⟨made, directory, name⟩, hPrepared, hLinked⟩ := exists_of_bind_eq_ok h
    obtain ⟨hMade, hDirectory, hLast⟩ := ht.prepare hPrepared
    dsimp only at hLinked
    split at hLinked
    · cases hLinked
    · cases hLinked
      exact hMade.put (hDirectory.concat (hNamed name hLast)) _
  | remove path =>
    obtain ⟨place, -, rfl⟩ := exists_of_map_eq_ok h
    exact ht.cutOff place

theorem regular_empty : Regular ⟨[], []⟩ where
  nodup := List.nodup_nil
  proper := nofun
  workingDirectory := nofun

/-- What a tree is after a change, or after an attempt at one. -/
def after (t : FileTree) (change : Change) : FileTree :=
  match t.apply change with
  | .ok t => t
  | .error _ => t

/-- Changes keep a tree regular. -/
theorem Regular.after_foldl {changes : List Change} (ht : t.Regular)
    (hNamed : ∀ change ∈ changes, change.Named) : (changes.foldl after t).Regular := by
  induction changes generalizing t with
  | nil => exact ht
  | cons change changes ih =>
    obtain ⟨hFirst, hMore⟩ := List.forall_mem_cons.1 hNamed
    refine ih ?_ hMore
    unfold after
    split
    next hDone => exact ht.apply hFirst hDone
    · exact ht

end CompileHost.FileTree
