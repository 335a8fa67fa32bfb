import ModuleAtlas.Report.Records

/-!
# What can be said

A report fails only because of a path in it that is no text. Each part of a report is looked at by
itself (`SaysIf.bind`, `SaysIf.mapM`); `saysIf_ofAnalysis` is about the whole.
-/

namespace ModuleAtlas.Report

variable {α β γ : Type} {P Q : Prop} {x : Except Failure β}

/-- The path is a text. -/
def Speakable (p : Path) : Prop := p.toString?.isSome = true

/-- All paths in the report on a directory are texts. -/
structure AllSpeakable (a : Analysis Float) : Prop where
  nodes : ∀ n ∈ a.graph.nodes, Speakable n.id
  edges : ∀ e ∈ a.graph.edges, Speakable e.source ∧ Speakable e.target
  warnings : ∀ w ∈ a.warnings, Speakable w.path

/-- Something is said if the condition holds, and otherwise a path in it is no text. -/
def SaysIf (P : Prop) (x : Except Failure β) : Prop :=
  (P ∧ ∃ d, x = .ok d) ∨ (¬P ∧ x = .error unspeakable)

namespace SaysIf

theorem pure (d : β) : SaysIf True (Pure.pure d) := .inl ⟨trivial, d, rfl⟩

theorem congr (h : SaysIf P x) (hPQ : P ↔ Q) : SaysIf Q x := by
  rwa [SaysIf, ← hPQ]

theorem bind {f : β → Except Failure γ} (hx : SaysIf P x) (hf : ∀ d, SaysIf Q (f d)) :
    SaysIf (P ∧ Q) (x >>= f) := by
  obtain ⟨hP, d, rfl⟩ | ⟨hP, rfl⟩ := hx
  · exact (hf d).congr ⟨fun hQ => ⟨hP, hQ⟩, And.right⟩
  · exact .inr ⟨fun h => hP h.1, rfl⟩

theorem mapM {p : α → Prop} {f : α → Except Failure β} (hf : ∀ a, SaysIf (p a) (f a)) (l : List α) :
    SaysIf (∀ a ∈ l, p a) (l.mapM f) := by
  induction l with
  | nil => exact (pure []).congr (by simp)
  | cons a as ih =>
    rw [List.mapM_cons]
    refine ((hf a).bind fun d => ih.bind fun ds => pure (d :: ds)).congr ?_
    rw [and_true, List.forall_mem_cons]

end SaysIf

theorem saysIf_ofPath (p : Path) : SaysIf (Speakable p) (ofPath p) := by
  rw [Speakable, ofPath]
  cases p.toString? with
  | some t => exact .inl ⟨rfl, _, rfl⟩
  | none => exact .inr ⟨by simp, rfl⟩

theorem saysIf_ofNode (n : Node Float) : SaysIf (Speakable n.id) (ofNode n) :=
  ((saysIf_ofPath n.id).bind fun _ => .pure _).congr (and_true _).to_iff

theorem saysIf_ofEdge (e : Edge) : SaysIf (Speakable e.source ∧ Speakable e.target) (ofEdge e) :=
  ((saysIf_ofPath e.source).bind fun _ => (saysIf_ofPath e.target).bind fun _ => .pure _).congr
    (by rw [and_true])

theorem saysIf_ofWarning (w : Warning) : SaysIf (Speakable w.path) (ofWarning w) :=
  ((saysIf_ofPath w.path).bind fun _ => .pure _).congr (and_true _).to_iff

/-- The report on a directory is given if all paths in it are texts. -/
theorem saysIf_ofAnalysis (a : Analysis Float) : SaysIf (AllSpeakable a) (ofAnalysis a) := by
  refine ((SaysIf.mapM saysIf_ofNode a.graph.nodes).bind fun _ =>
    (SaysIf.mapM saysIf_ofEdge a.graph.edges).bind fun _ =>
      (SaysIf.mapM saysIf_ofWarning a.warnings).bind fun _ => .pure _).congr ?_
  constructor
  · rintro ⟨hnodes, hedges, hwarnings, -⟩
    exact ⟨hnodes, hedges, hwarnings⟩
  · rintro ⟨hnodes, hedges, hwarnings⟩
    exact ⟨hnodes, hedges, hwarnings, trivial⟩

end ModuleAtlas.Report
