import CompileHost.Proofs.FileTree.Names
import Mathlib.Data.List.Induction

/-!
# Walks through a file tree

`Reaches` says what a walk does at each name, and counts the links that it follows.  So a walk can
be taken apart at any of its names, which `walk` itself does not show, as it puts the names of a
target in front of those that are left.

* `reaches_of_walk`, `Reaches.walk_append`: `Reaches` says what `walk` does.
* `Real`: the places that are reached without links; every walk from the root ends at one.
* `locate_concat`: where a path leads to, by where the path above it leads to.
* `realPath_eq_ok_iff`, `realPath_placePath_iff`: what the real path of a path is.
-/

namespace CompileHost.FileTree

open CompileHost.Path CompileHost.Text

variable {t : FileTree} {handle : Handle} {p q r : Place} {xs ys : List RawText} {name : RawText}
  {m n : Nat}

/-- What is found below the root is an entry. -/
theorem mem_entries_of_node? {node : Node} (hNode : t.node? p = some node) (hSome : p ≠ []) :
    (p, node) ∈ t.entries := by
  rw [node?, if_neg hSome] at hNode
  obtain ⟨entry, hFound, rfl⟩ := Option.map_eq_some_iff.1 hNode
  obtain rfl : entry.1 = p := by simpa using List.find?_some hFound
  exact List.mem_of_find?_eq_some hFound

/-! ## Walks, name by name -/

/-- A walk goes on at a place, which is a directory, and not too far away for the next name. -/
structure Opens (t : FileTree) (handle : Handle) (p : Place) (name : RawText) : Prop where
  near : handle.tooFar p name = false
  directory : t.node? p = some .directory

/-- A walk looks up a name at a place. -/
structure Seeks (t : FileTree) (handle : Handle) (p : Place) (name : RawText) : Prop
    extends Opens t handle p name where
  ne_dot : name ≠ "."
  ne_up : name ≠ ".."
  short : name.size ≤ nameLimit

/-- A walk along some names from one place to another, and the number of links that it follows. -/
inductive Reaches (t : FileTree) (handle : Handle) : Nat → Place → List RawText → Place → Prop where
  | arrived (p : Place) : Reaches t handle 0 p [] p
  | stays {n : Nat} {p q : Place} {xs : List RawText} (hOpen : Opens t handle p ".")
      (hRest : Reaches t handle n p xs q) : Reaches t handle n p ("." :: xs) q
  | rises {n : Nat} {p q : Place} {xs : List RawText} (hOpen : Opens t handle p "..")
      (hRest : Reaches t handle n p.dropLast xs q) : Reaches t handle n p (".." :: xs) q
  | descends {n : Nat} {p q : Place} {name : RawText} {xs : List RawText} {node : Node}
      (hSeek : Seeks t handle p name) (hNode : t.node? (p ++ [name]) = some node)
      (hPlain : ∀ target, node ≠ .link target)
      (hRest : Reaches t handle n (p ++ [name]) xs q) : Reaches t handle n p (name :: xs) q
  | follows {n : Nat} {p q : Place} {name target : RawText} {xs : List RawText}
      (hSeek : Seeks t handle p name) (hNode : t.node? (p ++ [name]) = some (.link target))
      (hRest : Reaches t handle n (start p target) (names target ++ xs) q) :
      Reaches t handle (n + 1) p (name :: xs) q

section Steps

variable {follow : Bool}

theorem advance_dot (hOpen : Opens t handle p ".") :
    t.advance handle follow p ("." :: xs) = t.advance handle follow p xs := by
  rw [advance, if_neg (by simp [hOpen.near]), if_neg (not_not_intro hOpen.directory), if_pos rfl]

theorem advance_up (hOpen : Opens t handle p "..") :
    t.advance handle follow p (".." :: xs) = t.advance handle follow p.dropLast xs := by
  rw [advance, if_neg (by simp [hOpen.near]), if_neg (not_not_intro hOpen.directory),
    if_neg (by decide), if_pos rfl]

theorem advance_far (hFar : handle.tooFar p name = true) :
    t.advance handle follow p (name :: xs) = .error .nameTooLong := by
  rw [advance, if_pos hFar]

theorem advance_of_not_directory (hNear : handle.tooFar p name = false)
    (hNot : t.node? p ≠ some .directory) :
    t.advance handle follow p (name :: xs) = .error .notADirectory := by
  rw [advance, if_neg (by simp [hNear]), if_pos hNot]

theorem advance_long (hOpen : Opens t handle p name) (hDot : name ≠ ".") (hUp : name ≠ "..")
    (hLong : nameLimit < name.size) :
    t.advance handle follow p (name :: xs) = .error .nameTooLong := by
  rw [advance, if_neg (by simp [hOpen.near]), if_neg (not_not_intro hOpen.directory), if_neg hDot,
    if_neg hUp, if_pos hLong]

section Seeks

variable (hSeek : Seeks t handle p name)
include hSeek

theorem advance_seek :
    t.advance handle follow p (name :: xs) =
      match t.node? (p ++ [name]) with
      | none => .error .notFound
      | some (.link target) =>
        if xs = [] ∧ follow = false then .ok (.arrived (p ++ [name]))
        else .ok (.linked p target xs)
      | some _ => t.advance handle follow (p ++ [name]) xs := by
  have hShort := Nat.not_lt.2 hSeek.short
  cases hNode : t.node? (p ++ [name]) with
  | none =>
    simp [advance, hSeek.near, hSeek.directory, hSeek.ne_dot, hSeek.ne_up, hShort, hNode]
  | some node =>
    cases node <;>
      simp [advance, hSeek.near, hSeek.directory, hSeek.ne_dot, hSeek.ne_up, hShort, hNode]

theorem advance_missing (hNode : t.node? (p ++ [name]) = none) :
    t.advance handle follow p (name :: xs) = .error .notFound := by
  rw [advance_seek hSeek, hNode]

theorem advance_down {node : Node} (hNode : t.node? (p ++ [name]) = some node)
    (hPlain : ∀ target, node ≠ .link target) :
    t.advance handle follow p (name :: xs) = t.advance handle follow (p ++ [name]) xs := by
  rw [advance_seek hSeek, hNode]
  cases node with
  | link target => exact absurd rfl (hPlain target)
  | _ => rfl

theorem advance_link {target : RawText} (hNode : t.node? (p ++ [name]) = some (.link target)) :
    t.advance handle follow p (name :: xs) =
      if xs = [] ∧ follow = false then .ok (.arrived (p ++ [name]))
      else .ok (.linked p target xs) := by
  rw [advance_seek hSeek, hNode]

theorem advance_follow {target : RawText} (hNode : t.node? (p ++ [name]) = some (.link target)) :
    t.advance handle true p (name :: xs) = .ok (.linked p target xs) := by
  rw [advance_link hSeek hNode, if_neg (fun hLast => Bool.noConfusion hLast.2)]

end Seeks

/-- What a step of a walk can be that does not fail. -/
theorem cases_of_advance {progress : Progress}
    (h : t.advance handle follow p (name :: xs) = .ok progress) :
    name = "." ∧ Opens t handle p "." ∨ name = ".." ∧ Opens t handle p ".." ∨
      Seeks t handle p name ∧ ∃ node, t.node? (p ++ [name]) = some node := by
  cases hNear : handle.tooFar p name with
  | true =>
    rw [advance_far hNear] at h
    cases h
  | false =>
    by_cases hDirectory : t.node? p = some .directory
    · have hOpen : Opens t handle p name := ⟨hNear, hDirectory⟩
      by_cases hDot : name = "."
      · exact .inl ⟨hDot, hDot ▸ hOpen⟩
      · by_cases hUp : name = ".."
        · exact .inr (.inl ⟨hUp, hUp ▸ hOpen⟩)
        · by_cases hLong : nameLimit < name.size
          · rw [advance_long hOpen hDot hUp hLong] at h
            cases h
          · have hSeek : Seeks t handle p name := ⟨hOpen, hDot, hUp, Nat.not_lt.1 hLong⟩
            refine .inr (.inr ⟨hSeek, ?_⟩)
            cases hNode : t.node? (p ++ [name]) with
            | none =>
              rw [advance_missing hSeek hNode] at h
              cases h
            | some node => exact ⟨node, rfl⟩
    · rw [advance_of_not_directory hNear hDirectory] at h
      cases h

end Steps

theorem reaches_of_advance {progress : Progress} (h : t.advance handle true p xs = .ok progress) :
    match progress with
    | .arrived q => Reaches t handle 0 p xs q
    | .linked place target rest => ∀ n q,
        Reaches t handle n (start place target) (names target ++ rest) q →
          Reaches t handle (n + 1) p xs q := by
  induction xs generalizing p with
  | nil =>
    cases h
    exact .arrived p
  | cons name xs ih =>
    rcases cases_of_advance h with ⟨rfl, hOpen⟩ | ⟨rfl, hOpen⟩ | ⟨hSeek, node, hNode⟩
    · rw [advance_dot hOpen] at h
      cases progress with
      | arrived q => exact .stays hOpen (ih h)
      | linked place target rest => exact fun n q hRest => .stays hOpen (ih h n q hRest)
    · rw [advance_up hOpen] at h
      cases progress with
      | arrived q => exact .rises hOpen (ih h)
      | linked place target rest => exact fun n q hRest => .rises hOpen (ih h n q hRest)
    · cases node with
      | link target =>
        rw [advance_follow hSeek hNode] at h
        cases h
        exact fun n q hRest => .follows hSeek hNode hRest
      | _ =>
        rw [advance_down hSeek hNode nofun] at h
        cases progress with
        | arrived q => exact .descends hSeek hNode nofun (ih h)
        | linked place target rest =>
          exact fun n q hRest => .descends hSeek hNode nofun (ih h n q hRest)

theorem reaches_of_walk {links : Nat} (h : t.walk handle true links p xs = .ok q) :
    ∃ n ≤ links, Reaches t handle n p xs q := by
  induction links generalizing p xs with
  | zero =>
    rw [walk] at h
    split at h
    · cases h
    · rename_i there hAdvance
      cases h
      exact ⟨0, Nat.le_refl 0, reaches_of_advance hAdvance⟩
    · cases h
  | succ links ih =>
    rw [walk] at h
    split at h
    · cases h
    · rename_i there hAdvance
      cases h
      exact ⟨0, Nat.zero_le _, reaches_of_advance hAdvance⟩
    · rename_i place target rest hAdvance
      obtain ⟨n, hn, hRest⟩ := ih h
      exact ⟨n + 1, Nat.succ_le_succ hn, reaches_of_advance hAdvance n q hRest⟩

theorem walk_congr {follow : Bool}
    (h : t.advance handle follow p xs = t.advance handle follow q ys) (links : Nat) :
    t.walk handle follow links p xs = t.walk handle follow links q ys := by
  unfold walk
  rw [h]

/-- A walk goes on from where its first names have led to, with the links that are left. -/
theorem Reaches.walk_append {follow : Bool} (h : Reaches t handle m p xs r)
    (hOpen : ys ≠ [] ∨ follow = true) (links : Nat) :
    t.walk handle follow (m + links) p (xs ++ ys) = t.walk handle follow links r ys := by
  induction h with
  | arrived p => rw [Nat.zero_add, List.nil_append]
  | stays hStay hRest ih =>
    rw [← ih]
    exact walk_congr (advance_dot hStay) _
  | rises hRise hRest ih =>
    rw [← ih]
    exact walk_congr (advance_up hRise) _
  | descends hSeek hNode hPlain hRest ih =>
    rw [← ih]
    exact walk_congr (advance_down hSeek hNode hPlain) _
  | @follows n p q name target xs hSeek hNode hRest ih =>
    have hLast : ¬ (xs ++ ys = [] ∧ follow = false) := by
      rintro ⟨hNil, hFalse⟩
      rcases hOpen with hSome | hTrue
      · exact hSome (List.append_eq_nil_iff.1 hNil).2
      · rw [hTrue] at hFalse
        cases hFalse
    have hAdvance :
        t.advance handle follow p (name :: (xs ++ ys)) = .ok (.linked p target (xs ++ ys)) := by
      rw [advance_link hSeek hNode, if_neg hLast]
    rw [← ih, Nat.add_right_comm, List.cons_append, walk, hAdvance, List.append_assoc]

theorem Reaches.walk_eq (h : Reaches t handle m p xs r) (links : Nat) :
    t.walk handle true (m + links) p xs = .ok r := by
  have hWalk : t.walk handle true (m + links) p (xs ++ []) = t.walk handle true links r [] :=
    h.walk_append (Or.inr rfl) links
  rw [List.append_nil] at hWalk
  rw [hWalk]
  unfold walk
  rfl

theorem Reaches.walk_eq_of_le (h : Reaches t handle m p xs r) {links : Nat} (hLinks : m ≤ links) :
    t.walk handle true links p xs = .ok r := by
  obtain ⟨more, rfl⟩ := Nat.exists_eq_add_of_le hLinks
  exact h.walk_eq more

theorem walk_eq_ok_iff {links : Nat} :
    t.walk handle true links p xs = .ok q ↔ ∃ n ≤ links, Reaches t handle n p xs q := by
  constructor
  · exact reaches_of_walk
  · rintro ⟨n, hn, hReaches⟩
    exact hReaches.walk_eq_of_le hn

/-- A walk that is not allowed all the links on its way fails as a loop. -/
theorem Reaches.walk_eq_linkLoop (h : Reaches t handle n p xs q) {links : Nat} (hFew : links < n) :
    t.walk handle true links p xs = .error .linkLoop := by
  induction h generalizing links with
  | arrived p => exact absurd hFew (Nat.not_lt_zero _)
  | stays hOpen hRest ih =>
    rw [← ih hFew]
    exact walk_congr (advance_dot hOpen) links
  | rises hOpen hRest ih =>
    rw [← ih hFew]
    exact walk_congr (advance_up hOpen) links
  | descends hSeek hNode hPlain hRest ih =>
    rw [← ih hFew]
    exact walk_congr (advance_down hSeek hNode hPlain) links
  | @follows n p q name target xs hSeek hNode hRest ih =>
    have hAdvance : t.advance handle true p (name :: xs) = .ok (.linked p target xs) :=
      advance_follow hSeek hNode
    cases links with
    | zero => rw [walk, hAdvance]
    | succ links =>
      rw [walk, hAdvance]
      exact ih (Nat.lt_of_succ_lt_succ hFew)

/-- A walk ends at one place only. -/
theorem Reaches.unique (h : Reaches t handle m p xs q) (hOther : Reaches t handle n p xs r) :
    q = r := by
  have hWalk := h.walk_eq n
  rw [Nat.add_comm, hOther.walk_eq m] at hWalk
  exact (Except.ok.inj hWalk).symm

/-- A walk follows one number of links only. -/
theorem Reaches.links_unique (h : Reaches t handle m p xs q) (hOther : Reaches t handle n p xs r) :
    m = n := by
  have hLe {m n : Nat} {q r : Place} (h : Reaches t handle m p xs q)
      (hOther : Reaches t handle n p xs r) : m ≤ n := by
    refine Nat.not_lt.1 fun hFew => ?_
    have hLoop := h.walk_eq_linkLoop hFew
    rw [hOther.walk_eq_of_le (Nat.le_refl n)] at hLoop
    cases hLoop
  exact Nat.le_antisymm (hLe h hOther) (hLe hOther h)

theorem Reaches.trans (hFirst : Reaches t handle m p xs q) (hNext : Reaches t handle n q ys r) :
    Reaches t handle (m + n) p (xs ++ ys) r := by
  induction hFirst with
  | arrived p => rwa [Nat.zero_add]
  | stays hOpen hRest ih => exact .stays hOpen (ih hNext)
  | rises hOpen hRest ih => exact .rises hOpen (ih hNext)
  | descends hSeek hNode hPlain hRest ih => exact .descends hSeek hNode hPlain (ih hNext)
  | follows hSeek hNode hRest ih =>
    have hAll := ih hNext
    rw [List.append_assoc] at hAll
    rw [Nat.add_right_comm]
    exact .follows hSeek hNode hAll

theorem Reaches.split (h : Reaches t handle n p (xs ++ ys) r) :
    ∃ m k q, m + k = n ∧ Reaches t handle m p xs q ∧ Reaches t handle k q ys r := by
  generalize hNames : xs ++ ys = names at h
  induction h generalizing xs with
  | arrived p =>
    obtain ⟨rfl, rfl⟩ := List.append_eq_nil_iff.1 hNames
    exact ⟨0, 0, p, rfl, .arrived p, .arrived p⟩
  | @stays n p q zs hOpen hRest ih =>
    cases xs with
    | nil =>
      subst hNames
      exact ⟨0, n, p, Nat.zero_add n, .arrived p, .stays hOpen hRest⟩
    | cons x xs =>
      obtain ⟨rfl, rfl⟩ := List.cons.inj hNames
      obtain ⟨m, k, q, hSum, hFirst, hNext⟩ := ih rfl
      exact ⟨m, k, q, hSum, .stays hOpen hFirst, hNext⟩
  | @rises n p q zs hOpen hRest ih =>
    cases xs with
    | nil =>
      subst hNames
      exact ⟨0, n, p, Nat.zero_add n, .arrived p, .rises hOpen hRest⟩
    | cons x xs =>
      obtain ⟨rfl, rfl⟩ := List.cons.inj hNames
      obtain ⟨m, k, q, hSum, hFirst, hNext⟩ := ih rfl
      exact ⟨m, k, q, hSum, .rises hOpen hFirst, hNext⟩
  | @descends n p q name zs node hSeek hNode hPlain hRest ih =>
    cases xs with
    | nil =>
      subst hNames
      exact ⟨0, n, p, Nat.zero_add n, .arrived p, .descends hSeek hNode hPlain hRest⟩
    | cons x xs =>
      obtain ⟨rfl, rfl⟩ := List.cons.inj hNames
      obtain ⟨m, k, q, hSum, hFirst, hNext⟩ := ih rfl
      exact ⟨m, k, q, hSum, .descends hSeek hNode hPlain hFirst, hNext⟩
  | @follows n p q name target zs hSeek hNode hRest ih =>
    cases xs with
    | nil =>
      subst hNames
      exact ⟨0, n + 1, p, Nat.zero_add _, .arrived p, .follows hSeek hNode hRest⟩
    | cons x xs =>
      obtain ⟨rfl, rfl⟩ := List.cons.inj hNames
      obtain ⟨m, k, q, hSum, hFirst, hNext⟩ := ih (List.append_assoc ..)
      exact ⟨m + 1, k, q, by omega, .follows hSeek hNode hFirst, hNext⟩

theorem Reaches.seeks (hName : IsName name) (h : Reaches t handle n p (name :: xs) q) :
    Seeks t handle p name := by
  cases h with
  | stays => exact absurd rfl hName.ne_dot
  | rises => exact absurd rfl hName.ne_up
  | descends hSeek => exact hSeek
  | follows hSeek => exact hSeek

theorem reaches_concat_dot_iff :
    Reaches t handle n p (xs ++ [("." : RawText)]) q ↔
      Reaches t handle n p xs q ∧ Opens t handle q "." := by
  constructor
  · intro h
    obtain ⟨m, k, r, rfl, hFirst, hDot⟩ := h.split
    generalize hName : (RawText.ofText ".") = name at hDot
    cases hDot with
    | stays hOpen hRest =>
      cases hRest
      exact ⟨hFirst, hOpen⟩
    | rises => exact absurd hName (by decide)
    | descends hSeek => exact absurd hName.symm hSeek.ne_dot
    | follows hSeek => exact absurd hName.symm hSeek.ne_dot
  · rintro ⟨hFirst, hOpen⟩
    exact hFirst.trans (.stays hOpen (.arrived q))

theorem reaches_concat_up_iff :
    Reaches t handle n p (xs ++ [(".." : RawText)]) q ↔
      ∃ r, Reaches t handle n p xs r ∧ Opens t handle r ".." ∧ q = r.dropLast := by
  constructor
  · intro h
    obtain ⟨m, k, r, rfl, hFirst, hUp⟩ := h.split
    generalize hName : (RawText.ofText "..") = name at hUp
    cases hUp with
    | stays => exact absurd hName (by decide)
    | rises hOpen hRest =>
      cases hRest
      exact ⟨r, hFirst, hOpen, rfl⟩
    | descends hSeek => exact absurd hName.symm hSeek.ne_up
    | follows hSeek => exact absurd hName.symm hSeek.ne_up
  · rintro ⟨r, hFirst, hOpen, rfl⟩
    exact hFirst.trans (.rises hOpen (.arrived r.dropLast))

/-! ## Walks by the paths of places -/

theorem Opens.by_name (h : Opens t handle p name) : Opens t .name p name :=
  ⟨rfl, h.directory⟩

theorem Seeks.by_name (h : Seeks t handle p name) : Seeks t .name p name :=
  ⟨h.toOpens.by_name, h.ne_dot, h.ne_up, h.short⟩

/-- What is found by the paths of places is found by names. -/
theorem Reaches.by_name (h : Reaches t handle n p xs q) : Reaches t .name n p xs q := by
  induction h with
  | arrived p => exact .arrived p
  | stays hOpen hRest ih => exact .stays hOpen.by_name ih
  | rises hOpen hRest ih => exact .rises hOpen.by_name ih
  | descends hSeek hNode hPlain hRest ih => exact .descends hSeek.by_name hNode hPlain ih
  | follows hSeek hNode hRest ih => exact .follows hSeek.by_name hNode ih

/-! ## Places without links -/

/-- A place that is reached from the root without a link. -/
inductive Real (t : FileTree) : Place → Prop where
  | root : Real t []
  | entry {p : Place} {name : RawText} {node : Node} (hAbove : Real t p)
      (hDirectory : t.node? p = some .directory) (hName : IsEntryName name)
      (hNode : t.node? (p ++ [name]) = some node) (hPlain : ∀ target, node ≠ .link target) :
      Real t (p ++ [name])

theorem seeks_of_isEntryName (hDirectory : t.node? p = some .directory) (hName : IsEntryName name) :
    Seeks t .name p name :=
  ⟨⟨rfl, hDirectory⟩, hName.ne_dot, hName.ne_up, hName.short⟩

theorem Seeks.isEntryName (h : Seeks t handle p name) (hName : IsStep name) : IsEntryName name :=
  ⟨⟨hName, h.ne_dot, h.ne_up⟩, h.short⟩

theorem Real.isEntryName (h : Real t p) : ∀ s ∈ p, IsEntryName s := by
  induction h with
  | root => exact fun s hs => absurd hs List.not_mem_nil
  | entry hAbove hDirectory hName hNode hPlain ih =>
    exact List.forall_mem_append.2 ⟨ih, List.forall_mem_singleton.2 hName⟩

theorem Real.isName (h : Real t p) : ∀ s ∈ p, IsName s :=
  fun s hs => (h.isEntryName s hs).toIsName

theorem Real.isStep (h : Real t p) : ∀ s ∈ p, IsStep s :=
  fun s hs => (h.isName s hs).toIsStep

theorem Real.reaches (h : Real t p) : Reaches t .name 0 [] p p := by
  induction h with
  | root => exact .arrived []
  | entry hAbove hDirectory hName hNode hPlain ih =>
    exact ih.trans (.descends (seeks_of_isEntryName hDirectory hName) hNode hPlain (.arrived _))

theorem Real.not_link (h : Real t p) (target : RawText) : t.node? p ≠ some (.link target) := by
  cases h with
  | root => exact fun hNode => nomatch hNode
  | entry hAbove hDirectory hName hNode hPlain =>
    rw [hNode]
    exact fun hSame => hPlain target (Option.some.inj hSame)

theorem Real.dropLast (h : Real t p) : Real t p.dropLast := by
  cases h with
  | root => exact .root
  | entry hAbove hDirectory hName hNode hPlain => rwa [List.dropLast_concat]

theorem Real.start (h : Real t p) (path : RawText) : Real t (start p path) := by
  unfold FileTree.start
  split
  · exact .root
  · exact h

theorem Real.exists_node (h : Real t p) : ∃ node, t.node? p = some node := by
  cases h with
  | root => exact ⟨.directory, rfl⟩
  | entry _ _ _ hNode _ => exact ⟨_, hNode⟩

theorem Real.of_append (h : Real t (p ++ q)) : Real t p := by
  induction q using List.reverseRecOn with
  | nil => rwa [List.append_nil] at h
  | append_singleton q name ih =>
    apply ih
    have hAbove := h.dropLast
    rwa [← List.append_assoc, List.dropLast_concat] at hAbove

/-- A walk from a place without links ends at one. -/
theorem Reaches.real (h : Reaches t handle n p xs q) (hp : Real t p) (hSteps : ∀ s ∈ xs, IsStep s) :
    Real t q := by
  induction h with
  | arrived p => exact hp
  | stays hOpen hRest ih => exact ih hp (List.forall_mem_cons.1 hSteps).2
  | rises hOpen hRest ih => exact ih hp.dropLast (List.forall_mem_cons.1 hSteps).2
  | descends hSeek hNode hPlain hRest ih =>
    obtain ⟨hName, hMore⟩ := List.forall_mem_cons.1 hSteps
    exact ih (.entry hp hSeek.directory (hSeek.isEntryName hName) hNode hPlain) hMore
  | follows hSeek hNode hRest ih =>
    refine ih (hp.start _) (List.forall_mem_append.2 ⟨fun s hs => isStep_of_mem_names hs, ?_⟩)
    exact (List.forall_mem_cons.1 hSteps).2

/-! ## Where paths lead to -/

/-- A path that a walk can be made for. -/
def Fits (path : RawText) : Prop :=
  RawText.null ∉ path.bytes ∧ path.size ≤ pathLimit

theorem Fits.of_concat (h : Fits (placePath (p ++ [name]))) : Fits (placePath p) := by
  obtain ⟨hNull, hLength⟩ := h
  refine ⟨?_, Nat.le_trans (size_placePath_concat_le p name) hLength⟩
  rw [bytes_placePath_concat, List.mem_append, not_or, stem] at hNull
  split at hNull
  · rename_i hNil
    subst hNil
    exact hNull.1
  · exact fun hMem => hNull.1 (List.mem_append_left _ hMem)

theorem ne_empty_of_locate {follow : Bool} {path : RawText} (h : t.locate follow path = .ok q) :
    path ≠ "" := by
  rintro rfl
  rw [locate, if_pos rfl] at h
  cases h

theorem fits_of_locate {follow : Bool} {path : RawText} (h : t.locate follow path = .ok q) :
    Fits path := by
  unfold locate at h
  split at h
  · cases h
  · split at h
    · cases h
    · split at h
      · cases h
      · rename_i hNull hLength
        exact ⟨fun hMem => hNull (List.contains_iff_mem.2 hMem), Nat.not_lt.1 hLength⟩

theorem walk_of_locate {follow : Bool} {path : RawText} (h : t.locate follow path = .ok q) :
    t.walk .name follow linkLimit (start t.workingDirectory path) (names path) = .ok q := by
  unfold locate at h
  split at h
  · cases h
  · split at h
    · cases h
    · split at h
      · cases h
      · exact h

theorem locate_of_fits {follow : Bool} {path : RawText} (hSome : path ≠ "") (hFits : Fits path) :
    t.locate follow path =
      t.walk .name follow linkLimit (start t.workingDirectory path) (names path) := by
  have hNull : ¬ path.bytes.contains RawText.null = true :=
    fun h => hFits.1 (List.contains_iff_mem.1 h)
  rw [locate, if_neg hSome, if_neg hNull, if_neg (Nat.not_lt.2 hFits.2)]

theorem placePath_ne_empty (p : Place) : placePath p ≠ "" :=
  fun hEmpty => List.cons_ne_nil _ _ (congrArg RawText.bytes hEmpty)

theorem start_placePath (directory p : Place) : start directory (placePath p) = [] :=
  if_pos (head?_placePath p)

theorem locate_root (t : FileTree) (follow : Bool) : t.locate follow (placePath []) = .ok [] := by
  cases follow <;> rfl

theorem locate_placePath {follow : Bool} (hFits : Fits (placePath p)) (hNames : ∀ s ∈ p, IsName s) :
    t.locate follow (placePath p) = t.walk .name follow linkLimit [] p := by
  rcases List.eq_nil_or_concat p with rfl | ⟨above, name, rfl⟩
  · rw [locate_root]
    unfold walk
    rfl
  · rw [List.concat_eq_append] at hFits hNames ⊢
    rw [locate_of_fits (placePath_ne_empty _) hFits, start_placePath,
      names_placePath (fun s hs => hNames s (List.mem_append_left _ hs)) (hNames name (by simp))]

/-- A path leads to where the walk along it ends. -/
theorem locate_eq_ok_iff {path : RawText} (hSome : path ≠ "") (hFits : Fits path) :
    t.locate true path = .ok q ↔
      ∃ n ≤ linkLimit, Reaches t .name n (start t.workingDirectory path) (names path) q := by
  rw [locate_of_fits hSome hFits, walk_eq_ok_iff]

theorem locate_placePath_eq_ok_iff (hNames : ∀ s ∈ p, IsName s) (hFits : Fits (placePath p)) :
    t.locate true (placePath p) = .ok q ↔ ∃ n ≤ linkLimit, Reaches t .name n [] p q := by
  rw [locate_placePath hFits hNames, walk_eq_ok_iff]

theorem reaches_of_locate (hNames : ∀ s ∈ p, IsName s)
    (h : t.locate true (placePath p) = .ok q) : ∃ n ≤ linkLimit, Reaches t .name n [] p q :=
  (locate_placePath_eq_ok_iff hNames (fits_of_locate h)).1 h

theorem Reaches.locate (hNames : ∀ s ∈ p, IsName s) (h : Reaches t .name n [] p q)
    (hLinks : n ≤ linkLimit) (hFits : Fits (placePath p)) :
    t.locate true (placePath p) = .ok q :=
  (locate_placePath_eq_ok_iff hNames hFits).2 ⟨n, hLinks, h⟩

theorem real_of_locate (hNames : ∀ s ∈ p, IsName s)
    (h : t.locate true (placePath p) = .ok q) : Real t q := by
  obtain ⟨n, -, hReaches⟩ := reaches_of_locate hNames h
  exact hReaches.real .root fun s hs => (hNames s hs).toIsStep

/-- Without following links, a last name leads to the entry of that name. -/
theorem walk_last (hSeek : Seeks t handle r name) {node : Node}
    (hNode : t.node? (r ++ [name]) = some node) (links : Nat) :
    t.walk handle false links r [name] = .ok (r ++ [name]) := by
  have hAdvance : t.advance handle false r [name] = .ok (.arrived (r ++ [name])) := by
    cases node with
    | link target => rw [advance_link hSeek hNode, if_pos ⟨rfl, rfl⟩]
    | _ =>
      rw [advance_down hSeek hNode nofun]
      rfl
  unfold walk
  rw [hAdvance]

/-- If a walk that does not follow the last link ends at one, the walk that does goes on to its
target. -/
theorem reaches_target {links : Nat} {target : RawText} (hp : Real t p)
    (hSteps : ∀ s ∈ xs, IsStep s) (hFollowed : Reaches t .name n p xs q) (hLinks : n ≤ links)
    (hLast : t.walk .name false links p xs = .ok r) (hNode : t.node? r = some (.link target)) :
    ∃ n, Reaches t .name n (start r.dropLast target) (names target) q := by
  rcases List.eq_nil_or_concat xs with rfl | ⟨first, name, rfl⟩
  · unfold walk at hLast
    cases hLast
    exact absurd hNode (hp.not_link target)
  · rw [List.concat_eq_append] at hSteps hLast hFollowed
    obtain ⟨m, k, s, hSum, hFirst, hName⟩ := hFollowed.split
    have hs : Real t s := hFirst.real hp fun s hs => hSteps s (List.mem_append_left _ hs)
    have hMore : links = m + (links - m) := by omega
    rw [hMore, hFirst.walk_append (Or.inl (List.cons_ne_nil _ _))] at hLast
    cases hName with
    | stays hOpen hRest =>
      rw [walk_congr (advance_dot hOpen)] at hLast
      unfold walk at hLast
      cases hLast
      exact absurd hNode (hs.not_link target)
    | rises hOpen hRest =>
      rw [walk_congr (advance_up hOpen)] at hLast
      unfold walk at hLast
      cases hLast
      exact absurd hNode (hs.dropLast.not_link target)
    | descends hSeek hFound hPlain hRest =>
      rw [walk_last hSeek hFound] at hLast
      cases hLast
      rw [hFound] at hNode
      exact absurd (Option.some.inj hNode) (hPlain target)
    | @follows k _ _ _ found _ hSeek hFound hRest =>
      rw [walk_last hSeek hFound] at hLast
      cases hLast
      rw [hFound] at hNode
      cases hNode
      rw [List.append_nil] at hRest
      rw [List.dropLast_concat]
      exact ⟨k, hRest⟩

theorem exists?_iff (hNames : ∀ s ∈ p, IsName s) :
    t.exists? (placePath p) = true ↔ ∃ q, t.locate true (placePath p) = .ok q := by
  unfold exists? lookup
  cases hLocate : t.locate true (placePath p) with
  | error fault => simp [Except.bind, Except.isOk, Except.toBool]
  | ok q =>
    obtain ⟨node, hNode⟩ := (real_of_locate hNames hLocate).exists_node
    simp [Except.bind, hNode, Except.isOk, Except.toBool]

theorem isFile_iff {path : RawText} : t.isFile path = true ↔
    ∃ q bytes, t.locate true path = .ok q ∧ t.node? q = some (.file bytes) := by
  unfold isFile lookup
  cases t.locate true path with
  | error fault => simp [Except.bind]
  | ok q =>
    cases hNode : t.node? q with
    | none => simp [Except.bind, hNode]
    | some node => cases node <;> simp [Except.bind, hNode]

/-! ## Links -/

/-- A path is a link if it leads to one, the last link not being followed. -/
theorem isLink_iff {path : RawText} : t.isLink path = true ↔
    ∃ p target, t.locate false path = .ok p ∧ t.node? p = some (.link target) := by
  unfold isLink
  cases t.locate false path with
  | error fault => simp
  | ok p =>
    cases hNode : t.node? p with
    | none => simp [hNode]
    | some node => cases node <;> simp [hNode]

theorem fits_of_isLink {path : RawText} (hLink : t.isLink path = true) : Fits path := by
  obtain ⟨p, target, hLocate, -⟩ := isLink_iff.1 hLink
  exact fits_of_locate hLocate

/-- Where the path of an entry leads to, if no link is followed at its end. -/
theorem locate_false_concat (hNames : ∀ s ∈ p, IsName s) (hName : IsName name)
    (hFits : Fits (placePath (p ++ [name]))) (hAbove : Reaches t .name m [] p r)
    (hLinks : m ≤ linkLimit) :
    t.locate false (placePath (p ++ [name])) = t.walk .name false (linkLimit - m) r [name] := by
  have hAll : ∀ s ∈ p ++ [name], IsName s :=
    List.forall_mem_append.2 ⟨hNames, List.forall_mem_singleton.2 hName⟩
  rw [locate_placePath hFits hAll, ← hAbove.walk_append (Or.inl (List.cons_ne_nil _ _)),
    Nat.add_sub_cancel' hLinks]

/-- No link is found at a place without links. -/
theorem Real.isLink_eq_false (h : Real t p) : t.isLink (placePath p) = false := by
  rw [Bool.eq_false_iff]
  intro hLink
  obtain ⟨q, target, hLocate, hNode⟩ := isLink_iff.1 hLink
  cases h with
  | root =>
    rw [locate_root] at hLocate
    cases hLocate
    cases hNode
  | @entry p name node hAbove hDirectory hName hFound hPlain =>
    rw [locate_false_concat hAbove.isName hName.toIsName (fits_of_locate hLocate) hAbove.reaches
      (Nat.zero_le _), walk_last (seeks_of_isEntryName hDirectory hName) hFound] at hLocate
    cases hLocate
    rw [hFound] at hNode
    exact hPlain target (Option.some.inj hNode)

/-- Where a path leads to.  The path above it leads somewhere, and either it names a link there, or
it leads to what has its name there. -/
theorem locate_concat (hNames : ∀ s ∈ p, IsName s) (hName : IsName name)
    (h : t.locate true (placePath (p ++ [name])) = .ok q) :
    ∃ r, t.locate true (placePath p) = .ok r ∧
      (t.isLink (placePath (p ++ [name])) = true ∧
          (∃ target, t.node? (r ++ [name]) = some (.link target)) ∨
        t.isLink (placePath (p ++ [name])) = false ∧ q = r ++ [name]) := by
  have hFits := fits_of_locate h
  have hAll : ∀ s ∈ p ++ [name], IsName s :=
    List.forall_mem_append.2 ⟨hNames, List.forall_mem_singleton.2 hName⟩
  obtain ⟨n, hn, hReaches⟩ := reaches_of_locate hAll h
  obtain ⟨m, k, r, hSum, hAbove, hLast⟩ := hReaches.split
  have hLinks : m ≤ linkLimit := by omega
  refine ⟨r, hAbove.locate hNames hLinks hFits.of_concat, ?_⟩
  -- the last name is looked up where the names before it have led to
  have hLook := locate_false_concat hNames hName hFits hAbove hLinks
  cases hLast with
  | stays => exact absurd rfl hName.ne_dot
  | rises => exact absurd rfl hName.ne_up
  | @descends _ _ _ _ _ node hSeek hNode hPlain hRest =>
    cases hRest
    refine Or.inr ⟨Bool.eq_false_iff.2 fun hLink => ?_, rfl⟩
    obtain ⟨place, target, hPlace, hTarget⟩ := isLink_iff.1 hLink
    rw [hLook, walk_last hSeek hNode] at hPlace
    cases hPlace
    rw [hNode] at hTarget
    exact hPlain target (Option.some.inj hTarget)
  | @follows _ _ _ _ target _ hSeek hNode hRest =>
    refine Or.inl ⟨isLink_iff.2 ⟨r ++ [name], target, ?_, hNode⟩, target, hNode⟩
    rw [hLook, walk_last hSeek hNode]

/-- A last name is that of a link, or of the place that the walk leads to. -/
theorem Reaches.last (hName : IsName name) (h : Reaches t handle n p [name] q) :
    (∃ target, t.node? (p ++ [name]) = some (.link target)) ∨
      q = p ++ [name] ∧ ∀ target, t.node? (p ++ [name]) ≠ some (.link target) := by
  cases h with
  | stays => exact absurd rfl hName.ne_dot
  | rises => exact absurd rfl hName.ne_up
  | follows hSeek hNode hRest => exact .inl ⟨_, hNode⟩
  | descends hSeek hNode hPlain hRest =>
    refine .inr ⟨hRest.unique (.arrived _), fun target hLink => ?_⟩
    rw [hNode] at hLink
    exact hPlain target (Option.some.inj hLink)

/-- Whether a path names a link is seen where the path above it leads to. -/
theorem isLink_concat_iff (hNames : ∀ s ∈ p, IsName s) (hName : IsName name)
    (hAbove : Reaches t .name n [] p r) (h : t.locate true (placePath (p ++ [name])) = .ok q) :
    t.isLink (placePath (p ++ [name])) = true ↔
      ∃ target, t.node? (r ++ [name]) = some (.link target) := by
  have hAll : ∀ s ∈ p ++ [name], IsName s :=
    List.forall_mem_append.2 ⟨hNames, List.forall_mem_singleton.2 hName⟩
  obtain ⟨r', hLocate, hCases⟩ := locate_concat hNames hName h
  obtain ⟨n', -, hReaches⟩ := reaches_of_locate hNames hLocate
  obtain rfl : r' = r := hReaches.unique hAbove
  rcases hCases with ⟨hLink, hNode⟩ | ⟨hNoLink, rfl⟩
  · exact iff_of_true hLink hNode
  · refine iff_of_false (Bool.eq_false_iff.1 hNoLink) ?_
    rintro ⟨target, hNode⟩
    exact (real_of_locate hAll h).not_link target hNode

/-! ## Real paths -/

theorem realPath_eq_ok_iff {path real : RawText} (hSome : path ≠ "")
    (hNull : RawText.null ∉ path.bytes) :
    t.realPath path = .ok real ↔ ∃ n ≤ linkLimit, ∃ q,
      Reaches t .path n (start t.workingDirectory path) (names path) q ∧ placePath q = real := by
  have hNoNull : ¬ path.bytes.contains RawText.null = true :=
    fun h => hNull (List.contains_iff_mem.1 h)
  rw [realPath, if_neg hSome, if_neg hNoNull]
  constructor
  · intro hReal
    cases hWalk : t.walk .path true linkLimit (start t.workingDirectory path) (names path) with
    | error fault =>
      rw [hWalk] at hReal
      cases hReal
    | ok q =>
      rw [hWalk] at hReal
      obtain ⟨n, hn, hReaches⟩ := walk_eq_ok_iff.1 hWalk
      exact ⟨n, hn, q, hReaches, Except.ok.inj hReal⟩
  · rintro ⟨n, hn, q, hReaches, rfl⟩
    rw [walk_eq_ok_iff.2 ⟨n, hn, hReaches⟩]
    rfl

theorem realPath_root (t : FileTree) : t.realPath (placePath []) = .ok (placePath []) := by
  rw [realPath_eq_ok_iff (placePath_ne_empty []) (by decide), start_placePath]
  exact ⟨0, Nat.zero_le _, [], .stays ⟨by decide, rfl⟩ (.arrived []), rfl⟩

theorem realPath_placePath_iff {real : RawText} (hNames : ∀ s ∈ p, IsName s)
    (hNull : RawText.null ∉ (placePath p).bytes) :
    t.realPath (placePath p) = .ok real ↔
      ∃ n ≤ linkLimit, ∃ q, Reaches t .path n [] p q ∧ placePath q = real := by
  rcases List.eq_nil_or_concat p with rfl | ⟨above, name, rfl⟩
  · rw [realPath_root]
    constructor
    · intro hRoot
      exact ⟨0, Nat.zero_le _, [], .arrived [], Except.ok.inj hRoot⟩
    · rintro ⟨n, -, q, hReaches, rfl⟩
      cases hReaches
      rfl
  · rw [List.concat_eq_append] at hNames hNull ⊢
    rw [realPath_eq_ok_iff (placePath_ne_empty _) hNull, start_placePath,
      names_placePath (fun s hs => hNames s (List.mem_append_left _ hs)) (hNames name (by simp))]

theorem exists?_of_realPath {real : RawText} (hNames : ∀ s ∈ p, IsName s)
    (hFits : Fits (placePath p)) (hReal : t.realPath (placePath p) = .ok real) :
    t.exists? (placePath p) = true := by
  obtain ⟨n, hn, q, hReaches, -⟩ := (realPath_placePath_iff hNames hFits.1).1 hReal
  exact (exists?_iff hNames).2 ⟨q, hReaches.by_name.locate hNames hn hFits⟩

end CompileHost.FileTree
