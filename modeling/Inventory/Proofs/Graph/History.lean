import Inventory.Proofs.Graph.Reload

/-!
# Graph — histories

A history lists what callers ask of a graph, from the empty one on: additions,
removals, and transactions, which remove vertices from a copy. A change that is
refused leaves the graph as it was, and so does a transaction that is not
committed. Whatever the history, it leads to a reachable graph: `after_sound`
says what callers can rely on then, `always_iff` when a property of graphs
lasts through a history.
-/

namespace Inventory

/-! ## Changes -/

/-- How a transaction ends; a transaction that is dropped is given up. -/
inductive Ending where
  | commit
  | rollback
  | drop
  deriving DecidableEq

/-- A change that a caller asks for. -/
inductive Change where
  | addVertex (v : Vertex)
  | addEdge (e : Edge)
  | removeVertex (id : VertexId)
  | transaction (removals : List VertexId) (ending : Ending)
  deriving DecidableEq

namespace Transaction

/-- Remove a vertex from the copy; one that is not there is passed over. -/
def attempt (t : Transaction) (id : VertexId) : Transaction :=
  match t.removeVertex id with
  | .ok (_, t') => t'
  | .error _ => t

/-- The graph that a transaction leaves. -/
def finish (t : Transaction) : Ending → Graph
  | .commit => t.commit
  | .rollback | .drop => t.rollback

end Transaction

namespace Graph

/-- Make a change; one that is refused leaves the graph as it was. -/
def change (g : Graph) : Change → Graph
  | .addVertex v => g.addVertex v
  | .addEdge e =>
    match g.addEdge e with
    | .ok g' => g'
    | .error _ => g
  | .removeVertex id =>
    match g.removeVertex id with
    | .ok (_, g') => g'
    | .error _ => g
  | .transaction removals ending =>
    (removals.foldl Transaction.attempt g.transaction).finish ending

/-- The graph after a history. -/
def after (h : List Change) : Graph := h.foldl change empty

/-! ## What changes keep -/

/-- A transaction keeps what every removal keeps, in its copy; its base stays. -/
theorem foldl_attempt_keeps {P : Graph → Prop}
    (hremove : ∀ {g g' : Graph} {id v}, P g → g.removeVertex id = .ok (v, g') → P g')
    (ids : List VertexId) {t : Transaction} (ht : P t.staged) :
    P (ids.foldl Transaction.attempt t).staged ∧
      (ids.foldl Transaction.attempt t).base = t.base := by
  induction ids generalizing t with
  | nil => exact ⟨ht, rfl⟩
  | cons id ids ih =>
      have hone : P (t.attempt id).staged ∧ (t.attempt id).base = t.base := by
        unfold Transaction.attempt
        split
        · next v t' h =>
            obtain ⟨⟨v, g'⟩, hg', h⟩ := Outcome.bind_eq_ok.mp h
            cases h
            exact ⟨hremove ht hg', rfl⟩
        · exact ⟨ht, rfl⟩
      obtain ⟨hstaged, hbase⟩ := ih hone.1
      exact ⟨hstaged, hbase.trans hone.2⟩

/-- A change keeps what its additions and its removals keep. -/
theorem change_keeps {P : Graph → Prop} (hvertex : ∀ {g : Graph} (v : Vertex), P g →
      P (g.addVertex v))
    (hremove : ∀ {g g' : Graph} {id v}, P g → g.removeVertex id = .ok (v, g') → P g')
    {g : Graph} {c : Change}
    (hedge : ∀ {e g'}, c = .addEdge e → g.addEdge e = .ok g' → P g') (hg : P g) :
    P (g.change c) := by
  cases c with
  | addVertex v => exact hvertex v hg
  | addEdge e =>
      unfold change
      dsimp only
      split
      · next h => exact hedge rfl h
      · exact hg
  | removeVertex id =>
      unfold change
      dsimp only
      split
      · next h => exact hremove hg h
      · exact hg
  | transaction removals ending =>
      obtain ⟨hstaged, hbase⟩ :=
        foldl_attempt_keeps hremove removals (t := g.transaction) hg
      cases ending with
      | commit => exact hstaged
      | rollback | drop =>
          show P (removals.foldl Transaction.attempt g.transaction).base
          rw [hbase]
          exact hg

theorem Reachable.change {g : Graph} (h : g.Reachable) (c : Change) : (g.change c).Reachable :=
  change_keeps (fun v hg => hg.addVertex v) (fun hg hr => hg.removeVertex hr)
    (fun _ hadd => h.addEdge hadd) h

theorem Reachable.foldl_change {g : Graph} (hg : g.Reachable) (h : List Change) :
    (h.foldl Graph.change g).Reachable := by
  induction h generalizing g with
  | nil => exact hg
  | cons c h ih => exact ih (hg.change c)

/-- **Histories lead to reachable graphs.** -/
theorem reachable_after (h : List Change) : (after h).Reachable := Reachable.empty.foldl_change h

/-! ## What lasts through a history -/

/-- A change adds no edge but one that meets a condition; an edge that is
refused is not added. -/
def AddsOnly (N : Graph → Edge → Prop) (g : Graph) : Change → Prop
  | .addEdge e => ∀ g', g.addEdge e = .ok g' → N g e
  | _ => True

/-- When vertices are added and removed without loss of a property, and edges
under just one condition, a change keeps the property under that condition. -/
theorem change_iff {P : Graph → Prop} {N : Graph → Edge → Prop}
    (hvertex : ∀ {g : Graph} (v : Vertex), P g → P (g.addVertex v))
    (hremove : ∀ {g g' : Graph} {id v}, g.WellFormed → P g → g.removeVertex id = .ok (v, g') →
      P g')
    (hedge : ∀ {g g' : Graph} {e}, P g → g.addEdge e = .ok g' → (P g' ↔ N g e)) {g : Graph}
    {c : Change} (wf : g.WellFormed) (hg : P g) : P (g.change c) ↔ AddsOnly N g c := by
  constructor
  · intro h
    cases c with
    | addEdge e =>
        intro g' hadd
        have hchange : g.change (.addEdge e) = g' := by simp only [change, hadd]
        rw [hchange] at h
        exact (hedge hg hadd).mp h
    | addVertex _ | removeVertex _ | transaction _ _ => trivial
  · intro hc
    -- the copy of a transaction is well formed at every removal
    refine (change_keeps (P := fun g => g.WellFormed ∧ P g)
      (fun v h => ⟨h.1.addVertex v, hvertex v h.2⟩)
      (fun h hr => ⟨h.1.removeVertex hr, hremove h.1 h.2 hr⟩)
      (fun heq hadd => ⟨wf.addEdge hadd, ?_⟩) ⟨wf, hg⟩).2
    subst heq
    exact (hedge hg hadd).mpr (hc _ hadd)

/-- Every change of a history meets a condition on the graph it is made to. -/
def Throughout (C : Graph → Change → Prop) : List Change → Graph → Prop
  | [], _ => True
  | c :: h, g => C g c ∧ Throughout C h (g.change c)

/-- When a change to a graph with a property keeps the property under just one
condition, the property lasts through a history exactly when every change of it
meets the condition. -/
theorem always_iff {P : Graph → Prop} {C : Graph → Change → Prop}
    (hstep : ∀ {g : Graph} {c : Change}, g.WellFormed → P g → (P (g.change c) ↔ C g c))
    {g : Graph} (hreach : g.Reachable) (hg : P g) {h : List Change} :
    (∀ h', h' <+: h → P (h'.foldl change g)) ↔ Throughout C h g := by
  induction h generalizing g with
  | nil =>
      refine iff_of_true (fun h' hh' => ?_) trivial
      rw [List.prefix_nil.mp hh']
      exact hg
  | cons c h ih =>
      have hone := hstep (c := c) hreach.wellFormed hg
      constructor
      · intro hall
        have hc : P (g.change c) := hall [c] ⟨h, rfl⟩
        refine ⟨hone.mp hc, (ih (hreach.change c) hc).mp fun h' hh' => ?_⟩
        exact hall (c :: h') ((List.prefix_cons_inj c).mpr hh')
      · rintro ⟨hc, hrest⟩ h' hh'
        rcases List.prefix_cons_iff.mp hh' with rfl | ⟨later, rfl, hlater⟩
        · exact hg
        · exact (ih (hreach.change c) (hone.mpr hc)).mpr hrest later hlater

/-! ## What callers see -/

/-- What a graph shows its callers fits together. -/
structure Sound (g : Graph) : Prop where
  ends : ∀ {i e}, g.edges.get? i = some e → g.contains e.outId = true ∧ g.contains e.inId = true
  /-- The edges at a vertex are the stored ones that run in the direction. -/
  edges : ∀ {id}, g.contains id = true → ∀ d, ∃ es, g.edgesOf id d = .ok es ∧
    ∀ e, e ∈ es ↔ g.edges.get? e.id = some e ∧ e.runs id d = true
  /-- The adjacent vertices are those at the other ends of the accepted ones. -/
  adjacent : ∀ {id}, g.contains id = true → ∀ d f, ∃ ws, g.adjacent id d f = .ok ws ∧
    ∀ w, w ∈ ws ↔ g.vertices.get? w.id = some w ∧
      ∃ e, g.edges.get? e.id = some e ∧ e.runs id d = true ∧ f.accepts e = true ∧
        e.otherEnd? id = some w.id
  /-- A graph is built from the snapshot that has the same snapshot. -/
  rebuilt : ∃ g', ofSnapshot g.snapshot = .ok g' ∧ g'.snapshot = g.snapshot

theorem WellFormed.sound {g : Graph} (wf : g.WellFormed) : g.Sound where
  ends h := ⟨wf.has_end h (Edge.touches_iff.mpr (.inl rfl)),
    wf.has_end h (Edge.touches_iff.mpr (.inr rfl))⟩
  edges hid d := by
    obtain ⟨v, hv⟩ := contains_iff.mp hid
    exact wf.edgesOf hv d
  adjacent hid d f := by
    obtain ⟨v, hv⟩ := contains_iff.mp hid
    obtain ⟨ws, hws, hmem⟩ := wf.adjacent hv d f
    refine ⟨ws, hws, fun w => ?_⟩
    rw [hmem]
    simp only [Edge.otherEnd?_eq_some]
  rebuilt := by
    obtain ⟨g', hg', hvertices, hedges, -⟩ := wf.ofSnapshot
    refine ⟨g', hg', ?_⟩
    unfold snapshot
    rw [hvertices, hedges]

/-- **Every history leads to a sound graph**, whichever of its changes were
refused or given up and whichever ids it used again. -/
theorem after_sound (h : List Change) : (after h).Sound :=
  (reachable_after h).wellFormed.sound

end Graph

end Inventory
