import CompileHost.Proofs.Host.Diagnostics
import Mathlib.Data.List.Dedup
import Mathlib.Data.List.Induction

/-!
# Renders of components

The tracker of a host is written by `renderChanged` alone, and keeps one text for each component.
So whether a component looks different is settled by the calls for that component: the last of them
left its text behind, whatever it was compared with, and nothing that happened since has touched
it.

* `get?_foldl_iff`: what is kept behind any calls that record is the last record.
* `tracker_useAll`: what is done with a host reaches its tracker only through the renders.
* `renders_after_uses`: when a component counts as unchanged, for a host and for a tracker alone.
-/

namespace CompileHost

open HotReload

/-- Among the calls that record the render text of a component, the last one for this component had
this text. -/
def LastRecord {α : Type} (record? : α → Option (String × String)) (calls : List α)
    (id text : String) : Prop :=
  ∃ earlier call later, calls = earlier ++ call :: later ∧ record? call = some (id, text) ∧
    ∀ other ∈ later, ∀ record, record? other = some record → record.1 ≠ id

section LastRecord

variable {α : Type} {record? : α → Option (String × String)} {calls : List α} {call : α}
  {id text : String}

theorem not_lastRecord_nil : ¬ LastRecord record? [] id text := by
  rintro ⟨earlier, call, later, hCalls, -⟩
  cases earlier <;> cases hCalls

/-- The last record is in the last call, unless that records nothing for the component. -/
theorem lastRecord_concat_iff :
    LastRecord record? (calls ++ [call]) id text ↔
      record? call = some (id, text) ∨
        LastRecord record? calls id text ∧ ∀ record, record? call = some record → record.1 ≠ id := by
  constructor
  · rintro ⟨earlier, found, later, hCalls, hRecord, hLater⟩
    rcases List.eq_nil_or_concat later with rfl | ⟨before, last, rfl⟩
    · obtain ⟨-, hLast⟩ := List.append_inj' hCalls rfl
      exact Or.inl (List.singleton_inj.1 hLast ▸ hRecord)
    · rw [List.concat_eq_append, ← List.cons_append, ← List.append_assoc] at hCalls
      obtain ⟨hBefore, hLast⟩ := List.append_inj' hCalls rfl
      rw [List.concat_eq_append, List.forall_mem_append, List.forall_mem_singleton] at hLater
      rw [List.singleton_inj.1 hLast]
      exact Or.inr ⟨⟨earlier, found, before, hBefore, hRecord, hLater.1⟩, hLater.2⟩
  · rintro (hRecord | ⟨⟨earlier, found, later, rfl, hRecord, hLater⟩, hSilent⟩)
    · exact ⟨calls, call, [], rfl, hRecord, fun _ hOther => absurd hOther List.not_mem_nil⟩
    · refine ⟨earlier, found, later ++ [call], by simp, hRecord, ?_⟩
      exact List.forall_mem_append.2 ⟨hLater, List.forall_mem_singleton.2 hSilent⟩

end LastRecord

/-! ## A tracker and its calls -/

namespace RenderTracker

/-- The text that is kept for a component. -/
def get? (tracker : RenderTracker) (id : String) : Option String :=
  tracker.renders[id]?

theorem get?_empty (id : String) : empty.get? id = none := by
  simp [get?, empty]

theorem get?_register (tracker : RenderTracker) (id render other : String) :
    (tracker.register id render).get? other =
      if id = other then some render else tracker.get? other := by
  simp only [get?, register, Std.TreeMap.getElem?_insert, Std.LawfulEqCmp.compare_eq_iff_eq]

theorem changed_snd_eq_false_iff {tracker : RenderTracker} {id render : String} :
    (tracker.changed id render).2 = false ↔ tracker.get? id = some render := by
  unfold changed
  split
  · rename_i hSame
    exact iff_of_true rfl hSame
  · rename_i hOther
    exact iff_of_false Bool.noConfusion hOther

/-- Whichever way the comparison goes, the text is the one that is kept from then on. -/
theorem get?_changed (tracker : RenderTracker) (id render other : String) :
    (tracker.changed id render).1.get? other =
      if id = other then some render else tracker.get? other := by
  unfold changed
  split
  · rename_i hSame
    split
    · rename_i hId
      exact hId ▸ hSame
    · rfl
  · exact tracker.get?_register id render other

/-- A call to a tracker. -/
inductive Call where
  | register (id render : String)
  | changed (id render : String)

/-- What a call records, and for which component. -/
def Call.record : Call → String × String
  | register id render => (id, render)
  | changed id render => (id, render)

/-- The tracker behind a call. -/
def perform (tracker : RenderTracker) : Call → RenderTracker
  | .register id render => tracker.register id render
  | .changed id render => (tracker.changed id render).1

/-- The tracker behind several calls, in order. -/
def performAll (tracker : RenderTracker) (calls : List Call) : RenderTracker :=
  calls.foldl perform tracker

theorem get?_perform (tracker : RenderTracker) (call : Call) (id : String) :
    (tracker.perform call).get? id =
      if call.record.1 = id then some call.record.2 else tracker.get? id := by
  cases call with
  | register other render => exact tracker.get?_register other render id
  | changed other render => exact tracker.get?_changed other render id

section Runs

variable {α : Type} {record? : α → Option (String × String)}
  {step : RenderTracker → α → RenderTracker} {id text : String}

/-- If every step keeps what it records and nothing else, the last record is what is kept. -/
theorem get?_foldl_iff
    (hRecords : ∀ tracker call other render, record? call = some (other, render) →
      ∀ id, (step tracker call).get? id = if other = id then some render else tracker.get? id)
    (hSilent : ∀ tracker call, record? call = none → step tracker call = tracker)
    (calls : List α) :
    (calls.foldl step .empty).get? id = some text ↔ LastRecord record? calls id text := by
  induction calls using List.reverseRecOn with
  | nil =>
    rw [List.foldl_nil, get?_empty]
    exact iff_of_false nofun not_lastRecord_nil
  | append_singleton calls call ih =>
    rw [List.foldl_append, List.foldl_cons, List.foldl_nil, lastRecord_concat_iff]
    cases hRecord : record? call with
    | none =>
      rw [hSilent _ _ hRecord, ih]
      simp
    | some record =>
      obtain ⟨other, render⟩ := record
      rw [hRecords _ _ _ _ hRecord]
      by_cases hId : other = id
      · subst hId
        simp
      · rw [if_neg hId, ih]
        simp [hId]

end Runs

theorem get?_performAll_iff {calls : List Call} {id text : String} :
    (performAll .empty calls).get? id = some text ↔
      LastRecord (fun call => some call.record) calls id text := by
  refine get?_foldl_iff ?_ nofun calls
  intro tracker call other render hRecord id
  rw [get?_perform, Option.some.inj hRecord]

theorem isSome_get?_performAll_iff {calls : List Call} {id : String} :
    ((performAll .empty calls).get? id).isSome ↔ id ∈ calls.map fun call => call.record.1 := by
  induction calls using List.reverseRecOn with
  | nil => simp [performAll, get?_empty]
  | append_singleton calls call ih =>
    have hConcat : performAll .empty (calls ++ [call]) = (performAll .empty calls).perform call :=
      List.foldl_append
    rw [hConcat, get?_perform, List.map_append, List.mem_append, ← ih, List.map_singleton,
      List.mem_singleton]
    by_cases hId : call.record.1 = id
    · rw [if_pos hId]
      exact iff_of_true rfl (Or.inr hId.symm)
    · rw [if_neg hId, or_iff_left (Ne.symm hId)]

/-- The size is the number of components that a text has been recorded for. -/
theorem size_performAll (calls : List Call) :
    (performAll .empty calls).size = (calls.map fun call => call.record.1).dedup.length := by
  have hPerm : (performAll .empty calls).renders.keys.Perm
      (calls.map fun call => call.record.1).dedup := by
    rw [List.perm_ext_iff_of_nodup Std.TreeMap.nodup_keys (List.nodup_dedup _)]
    intro id
    rw [Std.TreeMap.mem_keys, Std.TreeMap.mem_iff_isSome_getElem?, List.mem_dedup,
      ← isSome_get?_performAll_iff]
    rfl
  rw [size, ← Std.TreeMap.length_keys, hPerm.length_eq]

end RenderTracker

/-! ## A host and its uses -/

namespace Host

variable {P N : Type}

/-- What may happen to a host: it is called, it is asked for a file or a resource, or its engine,
which may remember what it was used for, comes to behave differently. -/
inductive Use (P N : Type) where
  | call (call : Call P)
  | requestArtifact (name : String)
  | inlineResource (w : World) (path : String)
  | engine (engine : Engine P N)

/-- The host behind a use; asking for a file or a resource only looks at it. -/
def use (h : Host P N) : Use P N → Host P N
  | .call call => h.perform call
  | .requestArtifact _ => h
  | .inlineResource _ _ => h
  | .engine engine => { h with engine }

/-- The host behind several uses, in order. -/
def useAll (h : Host P N) (uses : List (Use P N)) : Host P N :=
  uses.foldl use h

/-- What a use records, and for which component. -/
def Use.record? (l : Layout) : Use P N → Option (String × String)
  | .call (.renderChanged name render) => some (componentId (l.canonicalize name), render)
  | _ => none

theorem processor_of_bare {a b : Host P N} (h : a.bare = b.bare) : a.processor = b.processor :=
  show a.bare.processor = b.bare.processor by rw [h]

theorem tracker_perform {h : Host P N} {call : Call P}
    (hCall : ∀ name render, call ≠ .renderChanged name render) :
    (h.perform call).processor.tracker = h.processor.tracker := by
  cases call with
  | renderChanged name render => exact absurd rfl (hCall name render)
  | addFile w name isRoot =>
    exact congrArg ArtifactProcessor.tracker (processor_of_bare (bare_addFile h w name isRoot))
  | resolveFile w name =>
    exact congrArg ArtifactProcessor.tracker (processor_of_bare (bare_resolveFile h w name))
  | ask w q => exact congrArg ArtifactProcessor.tracker (processor_of_bare (bare_answer w h q))
  | runCompile w =>
    exact congrArg ArtifactProcessor.tracker (processor_of_bare (bare_runCompile h w))
  | _ => rfl

theorem tracker_use_of_silent {h : Host P N} {u : Use P N} {l : Layout}
    (hSilent : u.record? l = none) : (h.use u).processor.tracker = h.processor.tracker := by
  cases u with
  | call call =>
    refine tracker_perform fun name render hCall => ?_
    subst hCall
    cases hSilent
  | _ => rfl

theorem layout_use (h : Host P N) (u : Use P N) : (h.use u).layout = h.layout := by
  cases u with
  | call call => exact h.layout_perform call
  | _ => rfl

theorem layout_useAll (h : Host P N) (uses : List (Use P N)) :
    (h.useAll uses).layout = h.layout := by
  induction uses generalizing h with
  | nil => rfl
  | cons u uses ih => exact (ih (h.use u)).trans (h.layout_use u)

/-- What a use does to a tracker. -/
def Use.track (l : Layout) (tracker : RenderTracker) (u : Use P N) : RenderTracker :=
  match u.record? l with
  | some (id, render) => (tracker.changed id render).1
  | none => tracker

theorem tracker_use (h : Host P N) (u : Use P N) :
    (h.use u).processor.tracker = u.track h.layout h.processor.tracker := by
  cases hRecord : u.record? h.layout with
  | none => rw [tracker_use_of_silent hRecord, Use.track, hRecord]
  | some record =>
    rw [Use.track, hRecord]
    unfold Use.record? at hRecord
    split at hRecord
    · rw [← Option.some.inj hRecord]
      rfl
    · cases hRecord

theorem tracker_useAll (h : Host P N) (uses : List (Use P N)) :
    (h.useAll uses).processor.tracker =
      uses.foldl (Use.track h.layout) h.processor.tracker := by
  induction uses generalizing h with
  | nil => rfl
  | cons u uses ih =>
    refine (ih (h.use u)).trans ?_
    rw [layout_use, tracker_use, List.foldl_cons]

/-- **Render tracking.**  However a host has been used since it was built, a component counts as
unchanged exactly if a render was recorded for its path, by whatever spelling, and the last one had
the same text; nothing but `renderChanged` writes to the tracker.  The same holds of a tracker
alone, where `register` records as well, and its size is the number of components recorded. -/
theorem renders_after_uses {w : World} {s : Settings} {engine : Engine P N}
    {roots observers : List String} {tools : MarkupTools} {h : Host P N}
    (hBuild : Host.build w s engine roots observers tools = .ok h) (uses : List (Use P N)) :
    let after := h.useAll uses
    (∀ name render, (after.renderChanged name render).2 = false ↔
      LastRecord (Use.record? h.layout) uses (componentId (h.layout.canonicalize name)) render) ∧
    (∀ u : Use P N, (∀ name render, u ≠ .call (.renderChanged name render)) →
      (after.use u).processor.tracker = after.processor.tracker) ∧
    ∀ calls : List RenderTracker.Call,
      let tracker := RenderTracker.performAll .empty calls
      (∀ id render, (tracker.changed id render).2 = false ↔
        LastRecord (fun call => some call.record) calls id render) ∧
      tracker.size = (calls.map fun call => call.record.1).dedup.length := by
  intro after
  have hTracker : after.processor.tracker = uses.foldl (Use.track h.layout) .empty := by
    rw [tracker_useAll, (processor_of_build hBuild).1]
  refine ⟨?_, ?_, ?_⟩
  · intro name render
    have hChanged : (after.renderChanged name render).2 =
        (after.processor.tracker.changed
          (componentId (after.layout.canonicalize name)) render).2 := rfl
    rw [hChanged, RenderTracker.changed_snd_eq_false_iff, hTracker, layout_useAll]
    refine RenderTracker.get?_foldl_iff ?_ ?_ uses
    · intro tracker u other text hRecord id
      rw [Use.track, hRecord]
      exact tracker.get?_changed other text id
    · intro tracker u hSilent
      rw [Use.track, hSilent]
  · intro u hOther
    refine tracker_use_of_silent (l := h.layout) ?_
    unfold Use.record?
    split
    · rename_i name render
      exact absurd rfl (hOther name render)
    · rfl
  · intro calls tracker
    refine ⟨fun id render => ?_, RenderTracker.size_performAll calls⟩
    rw [RenderTracker.changed_snd_eq_false_iff, RenderTracker.get?_performAll_iff]

/-- A failing pass, another spelling of the path, and the start of a generation come between. -/
theorem renders_after_uses_faulty :
    let w : World := ⟨⟨[], []⟩, ⟨[]⟩⟩
    let s : Settings := {
      currentDirectory := "/", sourceDirectory := "src", outputDirectory := "dist"
      hotReload := false, caseSensitive := some true }
    let uses : List (Use String Unit) := [.call (.renderChanged "src/c" "old"),
      .call (.runCompile w), .call (.renderChanged "./src/d/../c" "new"), .call .reset,
      .requestArtifact "src/c"]
    ∃ h, Host.build w s Engine.faulty [] [] .basic = .ok h ∧
      ((h.useAll uses).renderChanged "/src/c" "new").2 = false := by
  intro w s uses
  have hRenders := @renders_after_uses _ _ w s .faulty [] [] .basic _ rfl uses
  refine ⟨_, rfl, (hRenders.1 "/src/c" "new").2 ?_⟩
  refine ⟨uses.take 2, .call (.renderChanged "./src/d/../c" "new"), uses.drop 3, rfl, ?_, ?_⟩
  · exact congrArg (fun path => some (componentId path, "new")) (by decide +kernel)
  · simp [uses, Use.record?]

end Host

end CompileHost
