import Inventory.Proofs.Graph.Reordered
import Inventory.Proofs.Topology.Places

/-!
# Topology — the order of definitions

Where a descent can go and what it can note does not depend on the order in
which connections, choices and their members are listed. The order of the
constraints of one element is another matter: the first one for a set wins.
-/

namespace Inventory

open Definition

/-! ## Readings -/

namespace Graph.Reordered

variable {g g' : Graph}

theorem targets (h : g.Reordered g') {id : VertexId} {label : String} {ws : List Vertex}
    (hw : Definition.targets g id label = .ok ws) :
    ∃ ws', Definition.targets g' id label = .ok ws' ∧ ws.Perm ws' :=
  h.adjacent hw

theorem singleTarget (h : g.Reordered g') {id : VertexId} {label : String}
    {invalid : DefinitionFault → Error} {v : Vertex}
    (hv : Definition.singleTarget invalid g id label = .ok v) :
    Definition.singleTarget invalid g' id label = .ok v := by
  obtain ⟨ws, hws, hv⟩ := Outcome.bind_eq_ok.mp hv
  obtain ⟨ws', hws', hp⟩ := h.targets hws
  refine Outcome.bind_eq_ok.mpr ⟨ws', hws', ?_⟩
  split at hv
  · cases hv
    rw [List.perm_singleton.mp hp.symm]
  · cases hv
  · cases hv

theorem model (h : g.Reordered g') {e : Element} {m : Model} (hm : e.model g = .ok m) :
    e.model g' = .ok m := by
  obtain ⟨v, hv, hm⟩ := Outcome.bind_eq_ok.mp hm
  exact Outcome.bind_eq_ok.mpr ⟨v, h.singleTarget hv, hm⟩

theorem topElement (h : g.Reordered g') {m : Model} {e : Element} (he : m.topElement g = .ok e) :
    m.topElement g' = .ok e := by
  obtain ⟨v, hv, he⟩ := Outcome.bind_eq_ok.mp he
  exact Outcome.bind_eq_ok.mpr ⟨v, h.singleTarget hv, he⟩

theorem step (h : g.Reordered g') {ctx : Context} {m : Model} {n : Nat} {s : TrailStep}
    (hs : m.step g ctx n = .ok s) : m.step g' ctx n = .ok s := by
  induction n generalizing m s with
  | zero => cases hs
  | succ n ih =>
      unfold Model.step at hs ⊢
      split at hs
      · exact hs
      · obtain ⟨top, htop, hs⟩ := Outcome.bind_eq_ok.mp hs
        obtain ⟨inner, hinner, hs⟩ := Outcome.bind_eq_ok.mp hs
        obtain ⟨s', hs', hs⟩ := Outcome.bind_eq_ok.mp hs
        exact Outcome.bind_eq_ok.mpr ⟨top, h.topElement htop, Outcome.bind_eq_ok.mpr
          ⟨inner, h.model hinner, Outcome.bind_eq_ok.mpr ⟨s', ih hs', hs⟩⟩⟩

/-- What is read from the targets of an edge is read again, in some order. -/
theorem readTargets (h : g.Reordered g') {α : Type} {read : Vertex → Outcome α} {id : VertexId}
    {label : String} {xs : List α}
    (hx : (do (← Definition.targets g id label).mapM read) = .ok xs) :
    ∃ xs', (do (← Definition.targets g' id label).mapM read) = .ok xs' ∧ xs.Perm xs' := by
  obtain ⟨ws, hws, hx⟩ := Outcome.bind_eq_ok.mp hx
  obtain ⟨ws', hws', hp⟩ := h.targets hws
  obtain ⟨xs', hxs', hp'⟩ := Outcome.mapM_perm hp hx
  exact ⟨xs', Outcome.bind_eq_ok.mpr ⟨ws', hws', hxs'⟩, hp'⟩

theorem members (h : g.Reordered g') {c : ChoiceSet} {es : List Element}
    (he : c.members g = .ok es) : ∃ es', c.members g' = .ok es' ∧ es.Perm es' :=
  h.readTargets he

theorem choices (h : g.Reordered g') {s : ElementSet} {cs : List ChoiceSet}
    (hc : s.choices g = .ok cs) : ∃ cs', s.choices g' = .ok cs' ∧ cs.Perm cs' :=
  h.readTargets hc

theorem connections (h : g.Reordered g') {e : Element} {cs : List Connection}
    (hc : e.connections g = .ok cs) : ∃ cs', e.connections g' = .ok cs' ∧ cs.Perm cs' :=
  h.readTargets hc

/-- A connection stands for the same elements. -/
theorem resolve (h : g.Reordered g') {scope : Scope} {c : Connection} {es : List Element}
    (he : c.resolve g scope = .ok es) :
    ∃ es', c.resolve g' scope = .ok es' ∧ ∀ e ∈ es, e ∈ es' := by
  cases c with
  | element e => exact ⟨es, he, fun _ h => h⟩
  | choice c =>
      obtain ⟨es', hes', hp⟩ := h.members he
      exact ⟨es', hes', fun _ => hp.mem_iff.mp⟩
  | set s =>
      obtain ⟨cs, hcs, he⟩ := Outcome.bind_eq_ok.mp he
      obtain ⟨ess, hess, he⟩ := Outcome.bind_eq_ok.mp he
      cases he
      obtain ⟨cs', hcs', hp⟩ := h.choices hcs
      -- choice sets and members are both reordered, which mixes the elements
      have htotal : ∀ c ∈ cs', ∃ es', ChoiceSet.members g' c = .ok es' := by
        intro c hc
        obtain ⟨es, _, hes⟩ := Outcome.mapM_reads hess (hp.mem_iff.mpr hc)
        obtain ⟨es', hes', _⟩ := h.members hes
        exact ⟨es', hes'⟩
      obtain ⟨ess', hess'⟩ := Outcome.mapM_total htotal
      refine ⟨ess'.flatten, Outcome.bind_eq_ok.mpr ⟨cs', hcs',
        Outcome.bind_eq_ok.mpr ⟨ess', hess', rfl⟩⟩, fun e he => ?_⟩
      obtain ⟨es, hes, he⟩ := List.mem_flatten.mp he
      obtain ⟨c, hc, hread⟩ := (Outcome.mem_mapM hess es).mp hes
      obtain ⟨es', hread', hp'⟩ := h.members hread
      exact List.mem_flatten.mpr ⟨es', (Outcome.mem_mapM hess' es').mpr
        ⟨c, hp.mem_iff.mp hc, hread'⟩, hp'.mem_iff.mp he⟩

end Graph.Reordered

/-! ## Places -/

/-- The definitions differ only in the order of listings, and every element has
its constraints in the same order. -/
structure Shuffled (g g' : Graph) : Prop extends Graph.Reordered g g' where
  constraints : ∀ e : Element, e.constraints g = e.constraints g'

namespace Shuffled

variable {g g' : Graph}

theorem symm (h : Shuffled g g') : Shuffled g' g :=
  ⟨h.toReordered.symm, fun e => (h.constraints e).symm⟩

variable {ctx : Context} {purpose : Purpose}

theorem move (h : Shuffled g g') {p q : Place} {o : Option TrailStep}
    (hm : p.Move g ctx purpose o q) : p.Move g' ctx purpose o q := by
  cases hm with
  | graft hlink hcs hmodel henters htop =>
      exact .graft hlink (h.constraints _ ▸ hcs) (h.model hmodel) henters (h.topElement htop)
  | connect hlink hcs hconns hc hchildren hchild hmodel hs =>
      obtain ⟨conns', hconns', hp⟩ := h.connections hconns
      obtain ⟨children', hchildren', hsub⟩ := h.resolve hchildren
      exact .connect hlink (h.constraints _ ▸ hcs) hconns' (hp.mem_iff.mp hc) hchildren'
        (hsub _ hchild) (h.model hmodel) (h.step hs)

theorem reaches (h : Shuffled g g') {p q : Place} (hr : p.Reaches g ctx purpose q) :
    p.Reaches g' ctx purpose q :=
  Relation.ReflTransGen.mono (fun _ _ ⟨o, hm⟩ => ⟨o, h.move hm⟩) _ _ hr

/-- A descent adds the same records in whatever order it goes. -/
theorem adds (h : Shuffled g g') {p : Place} {r : Record} (hr : p.Adds g ctx purpose r) :
    p.Adds g' ctx purpose r := by
  obtain ⟨q, hq, hn⟩ := hr
  refine ⟨q, h.reaches hq, ?_⟩
  cases hn with
  | first hn => exact .first hn
  | step hm => exact .step (h.move hm)

end Shuffled

end Inventory
