import Inventory.Proofs.Removal.Cascade

/-!
# Removal — the calls of a delete

A delete is refused before anything is removed, or else it goes through. It
calls for the marked vertices, and a call for a vertex that is there calls for
the vertices that depend on it. `executeDelete_all_or_nothing` says that none of
these calls fails, so that an error leaves the graph as it was.
-/

namespace Inventory

/-! ## Refusals -/

/-- A delete is refused when the root of its tree is not there, or has another
version than the one given. -/
inductive Refused (g : Graph) (t : ResultTree) (version : Option String) : Error → Prop where
  | absent : g.vertices.get? t.top.vertex.id = none →
      Refused g t version (.rootAlreadyRemoved t.top.vertex.id)
  | outdated {root : Vertex} {expected : String} :
      g.vertices.get? t.top.vertex.id = some root → version = some expected →
      root.resourceVersion?.getD "" ≠ expected →
      Refused g t version (.resourceVersionMismatch t.top.vertex.id expected
        (root.resourceVersion?.getD ""))

/-! ## Calls -/

/-- The calls that a delete makes: the bound on the chain of dependence, the
vertex that is called for, and the pass that the call meets. -/
inductive Calls (g : Graph) (rules : RuleTable) (t : ResultTree) :
    Nat → VertexId → DeletePass → Prop where
  | flagged {before after : List VertexId} {id : VertexId} :
      t.flagged = before ++ id :: after →
      Calls g rules t (g.vertexCount + 1) id
        (DeletePass.removeAll rules (g.vertexCount + 1) before { graph := g })
  | dependent {fuel : Nat} {id : VertexId} {p : DeletePass} {v w : Vertex}
      {before after : List Vertex} :
      Calls g rules t (fuel + 1) id p → id ∉ p.processed →
      p.graph.vertices.get? id = some v →
      DeletePass.dependents rules p.graph id v = .ok (before ++ w :: after) →
      Calls g rules t fuel w.id (DeletePass.removeAll rules fuel (before.map (·.id)) (p.see id))

/-- How a call for a vertex that is there goes: its neighbours are read, it
calls for its dependents, and then the vertex is removed and described. -/
structure Clears (rules : RuleTable) (fuel : Nat) (id : VertexId) (v : Vertex)
    (p : DeletePass) : Prop where
  neighbours : ∃ ws, p.graph.adjacent id .both .any = .ok ws
  removal : ∃ ws q g', DeletePass.dependents rules p.graph id v = .ok ws ∧
    DeletePass.removeAll rules fuel (ws.map (·.id)) (p.see id) = q ∧
    q.graph.removeVertex id = .ok (v, g') ∧
    p.remove rules (fuel + 1) id = (.ok (), q.take g' id v.described)

/-- How a call goes. It never meets the bound on the chain of dependence. -/
inductive GoesThrough (rules : RuleTable) : Nat → VertexId → DeletePass → Prop where
  | seen {fuel : Nat} {id : VertexId} {p : DeletePass} : id ∈ p.processed →
      p.remove rules (fuel + 1) id = (.ok (), p) → GoesThrough rules (fuel + 1) id p
  | absent {fuel : Nat} {id : VertexId} {p : DeletePass} : id ∉ p.processed →
      p.graph.vertices.get? id = none →
      p.remove rules (fuel + 1) id = (.ok (), p.see id) → GoesThrough rules (fuel + 1) id p
  | present {fuel : Nat} {id : VertexId} {p : DeletePass} {v : Vertex} : id ∉ p.processed →
      p.graph.vertices.get? id = some v → Clears rules fuel id v p →
      GoesThrough rules (fuel + 1) id p

section

variable {g : Graph} {rules : RuleTable} {t : ResultTree}

/-- Every call meets the pass as it must. -/
theorem Calls.ready (wf : g.WellFormed) (hrules : rules.OnePerPair) {fuel : Nat}
    {id : VertexId} {p : DeletePass} (h : Calls g rules t fuel id p) :
    DeletePass.Ready g rules (Doomed g rules t) fuel id p := by
  induction h with
  | @flagged before after id hsplit =>
      have hbefore := deals_flagged (t := t) wf hrules before
        fun x hx => by simp [hsplit, hx]
      exact (ready_flagged wf (by simp [hsplit])).later hbefore
  | @dependent fuel id p v w before after _ hid hv hws ih =>
      obtain ⟨ws, hws', hdepend, -⟩ := DeletePass.dependents_spec hrules ih.sound hv
      cases hws.symm.trans hws'
      have hready : ∀ x ∈ before ++ w :: after,
          DeletePass.Ready g rules (Doomed g rules t) fuel x.id (p.see id) :=
        fun x hx => ih.dependent (fun hv hd => .dependent hv hd) hid (hdepend x hx)
      have hbefore := DeletePass.deals_removeAll (fun _ _ h => deals_remove hrules h)
        (before.map (·.id)) (ih.sound.see id) fun x hx => by
          obtain ⟨y, hy, rfl⟩ := List.mem_map.mp hx
          exact hready y (by simp [hy])
      exact (hready w (by simp)).later hbefore

theorem Calls.goesThrough (wf : g.WellFormed) (hrules : rules.OnePerPair) {fuel : Nat}
    {id : VertexId} {p : DeletePass} (h : Calls g rules t fuel id p) :
    GoesThrough rules fuel id p := by
  have hready := h.ready wf hrules
  cases fuel with
  | zero => exact absurd hready.fueled (Nat.not_lt_zero _)
  | succ fuel =>
      by_cases hid : id ∈ p.processed
      · exact .seen hid (DeletePass.remove_seen hid)
      · cases hv : p.graph.vertices.get? id with
        | none => exact .absent hid hv (DeletePass.remove_absent hid hv)
        | some v =>
            obtain ⟨ws, q, g', htakes⟩ := DeletePass.exists_takes hrules
              (fun hv hd => Doomed.dependent hv hd) (fun _ _ h => deals_remove hrules h)
              hready hid hv
            obtain ⟨ns, hns, -⟩ := hready.sound.wf.neighbours hv
            exact .present hid hv ⟨⟨ns, hns⟩, ws, q, g', htakes.found, htakes.calls,
              htakes.removal, htakes.runs⟩

theorem GoesThrough.ok {fuel : Nat} {id : VertexId} {p : DeletePass}
    (h : GoesThrough rules fuel id p) : (p.remove rules fuel id).1 = .ok () := by
  cases h with
  | seen _ hrun => rw [hrun]
  | absent _ _ hrun => rw [hrun]
  | present _ _ hclears =>
      obtain ⟨_, _, _, _, _, _, hrun⟩ := hclears.removal
      rw [hrun]

/-! ## Errors -/

theorem Refused.executeDelete_eq {version : Option String} {e : Error}
    (h : Refused g t version e) : executeDelete g rules t version = (.error e, g) := by
  cases h with
  | absent hroot => simp only [executeDelete, hroot]
  | @outdated root expected hroot hversion hne =>
      have hfilter : version.filter (· ≠ root.resourceVersion?.getD "") = some expected := by
        rw [hversion, Option.filter_some, if_pos (by simpa using Ne.symm hne)]
      simp only [executeDelete, hroot, hfilter]

/-- A delete that is not refused makes its calls and returns what they leave. -/
theorem executeDelete_of_not_refused (wf : g.WellFormed) (hrules : rules.OnePerPair)
    (version : Option String) (h : ∀ e, ¬ Refused g t version e) :
    ∃ p, DeletePass.removeAll rules (g.vertexCount + 1) t.flagged { graph := g } = p ∧
      DeletePass.Deals g rules (Doomed g rules t) t.flagged { graph := g } p ∧
      executeDelete g rules t version = (.ok p.removed, p.graph) := by
  cases hroot : g.vertices.get? t.top.vertex.id with
  | none => exact absurd (.absent hroot) (h _)
  | some root =>
      refine executeDelete_calls wf hrules version hroot fun expected hversion => ?_
      by_contra hne
      exact h _ (.outdated hroot hversion hne)

/-- What a delete that succeeds has removed is what its calls leave. -/
theorem executeDelete_eq_ok (wf : g.WellFormed) (hrules : rules.OnePerPair)
    {version : Option String} {removed : Removed} {g' : Graph}
    (h : executeDelete g rules t version = (.ok removed, g')) :
    ∃ p : DeletePass, DeletePass.Deals g rules (Doomed g rules t) t.flagged { graph := g } p ∧
      removed = p.removed ∧ g' = p.graph := by
  obtain ⟨p, -, hdeals, hrun⟩ := executeDelete_of_not_refused (t := t) wf hrules version
    fun e he => by
      rw [he.executeDelete_eq] at h
      cases h
  rw [h] at hrun
  cases hrun
  exact ⟨p, hdeals, rfl, rfl⟩

/-- **A delete does all or nothing.** On a reachable graph it fails exactly when
it is refused, and then the graph is as it was. Otherwise it makes its calls for
the marked vertices and returns what they leave. No call, at any depth of the
cascade, fails. -/
theorem executeDelete_all_or_nothing (hg : g.Reachable) {source : CatalogSource} {c : Catalog}
    (hc : Catalog.ofSource source = .ok c) (t : ResultTree) (version : Option String) :
    (∀ e g', executeDelete g c.rules t version = (.error e, g') ↔
        Refused g t version e ∧ g' = g) ∧
      ((∀ e, ¬ Refused g t version e) →
        ∃ p, DeletePass.removeAll c.rules (g.vertexCount + 1) t.flagged { graph := g } = p ∧
          executeDelete g c.rules t version = (.ok p.removed, p.graph)) ∧
      ∀ fuel id p, Calls g c.rules t fuel id p →
        (p.remove c.rules fuel id).1 = .ok () ∧ GoesThrough c.rules fuel id p := by
  have hrules := RuleTable.onePerPair_ofSource hc
  refine ⟨fun e g' => ⟨fun h => ?_, ?_⟩, fun h => ?_, fun fuel id p hcall => ?_⟩
  · by_cases hrefused : ∃ e, Refused g t version e
    · obtain ⟨e', he'⟩ := hrefused
      rw [he'.executeDelete_eq] at h
      cases h
      exact ⟨he', rfl⟩
    · obtain ⟨p, -, -, hrun⟩ := executeDelete_of_not_refused hg.wellFormed hrules version
        fun e he => hrefused ⟨e, he⟩
      rw [hrun] at h
      cases h
  · intro h
    obtain ⟨he, rfl⟩ := h
    exact he.executeDelete_eq
  · obtain ⟨p, hp, -, hrun⟩ := executeDelete_of_not_refused hg.wellFormed hrules version h
    exact ⟨p, hp, hrun⟩
  · have hthrough := hcall.goesThrough hg.wellFormed hrules
    exact ⟨hthrough.ok, hthrough⟩

end

namespace Removal

/-- The ring with another version asked for stays, and without one the vertex
that is not there is passed over before the first node is called for. -/
theorem executeDelete_all_or_nothing_ring :
    ring.Reachable ∧ Catalog.ofSource ringSource = .ok ringCatalog ∧
      executeDelete ring ringCatalog.rules ringTree (some "7") =
        (.error (.resourceVersionMismatch "a" "7" ""), ring) ∧
      GoesThrough ringCatalog.rules 5 "b"
        (DeletePass.removeAll ringCatalog.rules 5 ["gone"] { graph := ring }) := by
  have hring : ring.Reachable :=
    Graph.reachable_ofParts (show Graph.ofParts ringVertices ringEdges = .ok ring from rfl)
  have hsource : Catalog.ofSource ringSource = .ok ringCatalog := rfl
  have hroot : ring.vertices.get? ringTree.top.vertex.id = some ⟨"a", "node", ∅⟩ := by decide
  obtain ⟨herror, -, hcalls⟩ :=
    executeDelete_all_or_nothing hring hsource ringTree (some "7")
  refine ⟨hring, hsource, (herror _ _).mpr ⟨.outdated hroot rfl (by decide), rfl⟩,
    (hcalls _ _ _ ?_).2⟩
  exact .flagged (show ringTree.flagged = ["gone"] ++ "b" :: ["b"] by decide)

end Removal

end Inventory
