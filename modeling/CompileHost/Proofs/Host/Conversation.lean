import CompileHost.Host.Engine

/-!
# Conversations side by side

What an engine asks depends on the replies that it got before.  So two hosts bring a conversation
to the same end if they are in step, that is, if to every question they give replies that the
engine cannot tell apart, and stay in step.

* `Alike`: two conversations that ask the same questions and come to related ends, as long as the
  replies agree in what they say.  A conversation that is alike to itself ignores handles.
* `run_alike`: alike conversations with hosts in step.
* `run_preserves`: what every reply preserves holds at the end.
* `transcript`: the questions and replies of a conversation, in order.
-/

namespace CompileHost

/-- Two replies to a question say the same.  Whether sources are one and the same thing does not
count, only what was parsed. -/
def Query.SameReply {P : Type} : (q : Query) → q.Reply P → q.Reply P → Prop
  | .sourceFile _, r, r' => r.map (·.value) = r'.map (·.value)
  | _, r, r' => r = r'

/-- A question and the reply to it. -/
abbrev Exchange (P : Type) := (q : Query) × q.Reply P

namespace Talk

variable {P α β σ τ : Type}

/-- Two conversations go alike as long as the replies say the same. -/
inductive Alike (R : α → β → Prop) : Talk P α → Talk P β → Prop where
  | done {a : α} {b : β} (hEnd : R a b) : Alike R (.done a) (.done b)
  | ask {q : Query} {next : q.Reply P → Talk P α} {next' : q.Reply P → Talk P β}
      (hNext : ∀ r r', q.SameReply r r' → Alike R (next r) (next' r')) :
      Alike R (.ask q next) (.ask q next')

/-- The questions and replies of a conversation. -/
def transcript (answer : σ → (q : Query) → σ × q.Reply P) : Talk P α → σ → List (Exchange P)
  | .done _, _ => []
  | .ask q next, s => ⟨q, (answer s q).2⟩ :: transcript answer (next (answer s q).2) (answer s q).1

/-- What every reply preserves, a whole conversation preserves. -/
theorem run_preserves {answer : σ → (q : Query) → σ × q.Reply P} {I : σ → Prop}
    (hStep : ∀ s q, I s → I (answer s q).1) (talk : Talk P α) {s : σ} (h : I s) :
    I (talk.run answer s).1 := by
  induction talk generalizing s with
  | done result => exact h
  | ask q next ih => exact ih _ (hStep s q h)

/-- Conversations that go alike, with hosts that stay in step. -/
theorem run_alike {answer : σ → (q : Query) → σ × q.Reply P}
    {answer' : τ → (q : Query) → τ × q.Reply P} {R : α → β → Prop} {S : σ → τ → Prop}
    (hStep : ∀ s s' q, S s s' →
      S (answer s q).1 (answer' s' q).1 ∧ q.SameReply (answer s q).2 (answer' s' q).2)
    {talk : Talk P α} {talk' : Talk P β} (hAlike : Alike R talk talk') {s : σ} {s' : τ}
    (h : S s s') :
    S (talk.run answer s).1 (talk'.run answer' s').1 ∧
      R (talk.run answer s).2 (talk'.run answer' s').2 := by
  induction hAlike generalizing s s' with
  | done hEnd => exact ⟨h, hEnd⟩
  | @ask q next next' hNext ih =>
    obtain ⟨hState, hReply⟩ := hStep s s' q h
    exact ih _ _ hReply hState

end Talk

/-- An engine that makes nothing of the identity of sources: its questions, what it emits and its
diagnostics depend on its arguments and on what the replies say. -/
def Engine.IgnoresHandles {P N : Type} (e : Engine P N) : Prop :=
  ∀ roots mode, Talk.Alike (fun a b => a.diagnostics = b.diagnostics) (e.compile roots mode)
    (e.compile roots mode)

end CompileHost
