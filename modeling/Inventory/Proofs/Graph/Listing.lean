import Inventory.Proofs.Graph.History

/-!
# Graph — what vertices list

Edges are listed by their ids, and an id that is used for another edge stays
listed where it was. This has two consequences. An edge that is added where its
id is listed already is listed twice, so that readings of the vertex repeat it.
An edge whose id is listed at a vertex which is not one of its ends is lost when
that vertex is removed. `listsOnce_iff` and `removesOnly_iff` say that nothing
else goes wrong: the readings of a vertex and its removal are as they should be
exactly when its list is, and they are throughout a history exactly when every
edge is added where its id is new, or is listed at no other vertex.
-/

namespace Inventory

namespace Graph

/-! ## Readings of a vertex -/

/-- The stored edges that run at a vertex as a direction asks, by rising id. -/
def running (g : Graph) (id : VertexId) (d : Direction) : List Edge :=
  g.edges.values.filter (·.runs id d)

/-- The readings of a vertex have one entry for each stored edge at it, and no
other. -/
structure ListsOnce (g : Graph) (id : VertexId) : Prop where
  edges : ∀ d, ∃ es, g.edgesOf id d = .ok es ∧ es.Perm (g.running id d)
  adjacent : ∀ d f, ∃ ws, g.adjacent id d f = .ok ws ∧
    (∀ w ∈ ws, g.vertices.get? w.id = some w) ∧
    (ws.map (·.id)).Perm (((g.running id d).filter f.accepts).filterMap (·.otherEnd? id))

/-- A vertex lists each stored edge at it once. -/
def FiledOnce (g : Graph) (id : VertexId) : Prop :=
  ∀ e, g.edges.get? e.id = some e → e.touches id = true → (g.listed id).count e.id = 1

theorem WellFormed.stored_of_mem_values {g : Graph} (wf : g.WellFormed) {e : Edge} :
    e ∈ g.edges.values ↔ g.edges.get? e.id = some e := by
  rw [Table.mem_values]
  constructor
  · rintro ⟨i, hi⟩
    rw [wf.edge_id hi]
    exact hi
  · exact fun he => ⟨e.id, he⟩

theorem WellFormed.mem_running {g : Graph} (wf : g.WellFormed) {id : VertexId} {d : Direction}
    {e : Edge} : e ∈ g.running id d ↔ g.edges.get? e.id = some e ∧ e.runs id d = true := by
  rw [running, List.mem_filter, wf.stored_of_mem_values]

theorem WellFormed.nodup_running {g : Graph} (wf : g.WellFormed) (id : VertexId) (d : Direction) :
    (g.running id d).Nodup :=
  List.Nodup.filter _ (.of_map _ (nodup_map_values wf.edge_id))

/-- An edge is read as often as its id is listed. -/
theorem WellFormed.count_edgesOf {g : Graph} (wf : g.WellFormed) {id : VertexId} {d : Direction}
    {es : List Edge} (h : g.edgesOf id d = .ok es) {e : Edge}
    (he : g.edges.get? e.id = some e) (hr : e.runs id d = true) :
    es.count e = (g.listed id).count e.id := by
  unfold Graph.edgesOf at h
  split at h
  · next ids hids =>
      cases h
      rw [List.count_filter (p := fun e : Edge => e.runs id d) hr, List.count_filterMap, listed, hids,
        Option.getD_some, List.count]
      refine List.countP_congr fun i _ => ?_
      simp only [beq_iff_eq]
      constructor
      · exact fun hi => (wf.edge_id hi).symm
      · rintro rfl
        exact he
  · cases h

theorem WellFormed.perm_running_iff {g : Graph} (wf : g.WellFormed) {id : VertexId}
    (hid : g.contains id = true) {d : Direction} {es : List Edge}
    (h : g.edgesOf id d = .ok es) :
    es.Perm (g.running id d) ↔
      ∀ e, g.edges.get? e.id = some e → e.runs id d = true → (g.listed id).count e.id = 1 := by
  obtain ⟨v, hv⟩ := contains_iff.mp hid
  obtain ⟨es', hes', hmem⟩ := wf.edgesOf hv d
  rw [h] at hes'
  cases hes'
  have hone : ∀ {e}, e ∈ g.running id d → (g.running id d).count e = 1 :=
    fun he => List.count_eq_one_of_mem (wf.nodup_running id d) he
  rw [List.perm_iff_count]
  constructor
  · intro hcount e he hr
    rw [← wf.count_edgesOf h he hr, hcount, hone (wf.mem_running.mpr ⟨he, hr⟩)]
  · intro hlisted e
    by_cases he : e ∈ g.running id d
    · obtain ⟨hs, hr⟩ := wf.mem_running.mp he
      rw [hone he, wf.count_edgesOf h hs hr, hlisted e hs hr]
    · have hes : e ∉ es := fun hes => he (wf.mem_running.mpr ((hmem e).mp hes))
      rw [List.count_eq_zero_of_not_mem he, List.count_eq_zero_of_not_mem hes]

/-- The adjacent vertices are read at the other ends of the edges, in their order. -/
theorem WellFormed.ids_adjacent {g : Graph} (wf : g.WellFormed) {id : VertexId} {d : Direction}
    {f : EdgeFilter} {es : List Edge} {ws : List Vertex} (h : g.edgesOf id d = .ok es)
    (hws : g.adjacent id d f = .ok ws) :
    ws.map (·.id) = (es.filter f.accepts).filterMap (·.otherEnd? id) := by
  obtain ⟨es', hes', hread⟩ := Outcome.bind_eq_ok.mp hws
  rw [h] at hes'
  cases hes'
  have hall := Outcome.mapM_eq_ok.mp hread
  clear hws hread
  generalize (es.filter f.accepts).filterMap (·.otherEnd? id) = ids at hall ⊢
  induction hall with
  | nil => rfl
  | @cons x w xs ws hw _ ih =>
      have hid : w.id = x := by
        unfold vertex at hw
        split at hw
        · next v hv =>
            cases hw
            exact wf.vertex_id hv
        · cases hw
      rw [List.map_cons, hid, ih]

/-- The readings of a vertex are without repetition exactly when its list is. -/
theorem WellFormed.listsOnce_iff_filedOnce {g : Graph} (wf : g.WellFormed) {id : VertexId}
    (hid : g.contains id = true) : g.ListsOnce id ↔ g.FiledOnce id := by
  obtain ⟨v, hv⟩ := contains_iff.mp hid
  constructor
  · intro h e he ht
    obtain ⟨es, hes, hperm⟩ := h.edges .both
    exact (wf.perm_running_iff hid hes).mp hperm e he ht
  · intro h
    have hedges : ∀ d, ∃ es, g.edgesOf id d = .ok es ∧ es.Perm (g.running id d) := by
      intro d
      obtain ⟨es, hes, -⟩ := wf.edgesOf hv d
      refine ⟨es, hes, (wf.perm_running_iff hid hes).mpr fun e he hr => ?_⟩
      exact h e he (Edge.touches_of_runs hr)
    refine ⟨hedges, fun d f => ?_⟩
    obtain ⟨es, hes, hperm⟩ := hedges d
    obtain ⟨ws, hws, hmem⟩ := wf.adjacent hv d f
    refine ⟨ws, hws, fun w hw => ((hmem w).mp hw).1, ?_⟩
    rw [wf.ids_adjacent hes hws]
    exact (hperm.filter _).filterMap _

/-! ### Additions that repeat an id -/

/-- An edge is new to its ends: neither lists its id. -/
def NewAtEnds (g : Graph) (e : Edge) : Prop :=
  ∀ x, e.touches x = true → e.id ∉ g.listed x

theorem FiledOnce.addVertex {g : Graph} {id : VertexId} (h : g.FiledOnce id) (v : Vertex) :
    (g.addVertex v).FiledOnce id := by
  intro e he ht
  rw [listed_addVertex]
  exact h e he ht

theorem filedOnce_addEdge_iff {g g' : Graph} {e : Edge} (hg : ∀ id, g.FiledOnce id)
    (h : g.addEdge e = .ok g') : (∀ id, g'.FiledOnce id) ↔ g.NewAtEnds e := by
  obtain ⟨-, -, hedges, hlisted⟩ := addEdge_eq_ok h
  constructor
  · intro hg' x ht
    have hcount := hg' x e (by rw [hedges]; simp) ht
    rw [(hlisted x).1, ht, if_pos rfl, List.count_append, List.count_singleton_self] at hcount
    exact List.count_eq_zero.mp (Nat.add_eq_right.mp hcount)
  · intro hnew x e' he' ht
    rw [hedges, Table.get?_put] at he'
    rw [(hlisted x).1, List.count_append]
    split at he'
    · cases he'
      rw [if_pos ht, List.count_singleton_self, List.count_eq_zero_of_not_mem (hnew x ht)]
    · next hne =>
        have hother : (if e.touches x then [e.id] else []).count e'.id = 0 := by
          refine List.count_eq_zero_of_not_mem fun hmem => ?_
          split at hmem
          · exact hne (List.mem_singleton.mp hmem)
          · cases hmem
        rw [hother, hg x e' he' ht]

theorem WellFormed.filedOnce_removeVertex {g g' : Graph} {x : VertexId} {v : Vertex}
    (wf : g.WellFormed) (hg : ∀ id, g.FiledOnce id) (h : g.removeVertex x = .ok (v, g'))
    (id : VertexId) : g'.FiledOnce id := by
  intro e he ht
  have hstill : e.id ∈ g'.listed id := (wf.removeVertex h).lists he ht
  obtain ⟨-, -, hedges, -, -⟩ := removeVertex_eq_ok h
  have hbefore : g.edges.get? e.id = some e := by
    rw [hedges] at he
    split at he
    · cases he
    · exact he
  have hle : (g'.listed id).count e.id ≤ (g.listed id).count e.id := by
    refine Nat.le_trans ((listed_removeVertex_sublist h id).count_le _) ?_
    split
    · exact Nat.zero_le _
    · exact Nat.le_refl _
  rw [hg id e hbefore ht] at hle
  exact Nat.le_antisymm hle (List.count_pos_iff.mpr hstill)

theorem filedOnce_empty (id : VertexId) : empty.FiledOnce id := by
  intro e he
  cases he

/-- **When every edge is read once.** After any history, the readings of a
vertex repeat no edge exactly when its list does not; and this is so of all
vertices throughout a history exactly when no edge is ever added at a vertex
that lists its id. -/
theorem listsOnce_iff (h : List Change) :
    (∀ id, (after h).contains id = true →
        ((after h).ListsOnce id ↔ (after h).FiledOnce id)) ∧
      ((∀ h', h' <+: h → ∀ id, (after h').contains id = true → (after h').ListsOnce id) ↔
        Throughout (AddsOnly NewAtEnds) h .empty) := by
  refine ⟨fun id hid => (reachable_after h).wellFormed.listsOnce_iff_filedOnce hid, ?_⟩
  have hstep := @change_iff (fun g => ∀ id, g.FiledOnce id) NewAtEnds
    (fun v hg id => (hg id).addVertex v) (fun wf hg hr => wf.filedOnce_removeVertex hg hr)
    filedOnce_addEdge_iff
  rw [← always_iff hstep .empty filedOnce_empty]
  refine forall₂_congr fun h' _ => ?_
  have wf := (reachable_after h').wellFormed
  constructor
  · intro hlists id e he ht
    have hid : (after h').contains id = true := wf.has_end he ht
    exact (wf.listsOnce_iff_filedOnce hid).mp (hlists id hid) e he ht
  · exact fun hfiled id hid => (wf.listsOnce_iff_filedOnce hid).mpr (hfiled id)

/-! ### A link that is added again -/

end Graph

namespace Listing

def link : Edge := ⟨"e", "a", "b", "link", ∅⟩

/-- Two hosts, and twice the same link between them. -/
def linkedTwice : List Change :=
  [.addVertex ⟨"a", "host", ∅⟩, .addVertex ⟨"b", "host", ∅⟩, .addEdge link, .addEdge link]

/-- One link is stored, and the first host reads it twice. -/
theorem not_listsOnce_linkedTwice :
    (Graph.after linkedTwice).contains "a" = true ∧
      (Graph.after linkedTwice).edges.values = [link] ∧
      (Graph.after linkedTwice).edgesOf "a" .outgoing = .ok [link, link] ∧
      (Graph.after linkedTwice).adjacent "a" .outgoing .any =
        .ok [⟨"b", "host", ∅⟩, ⟨"b", "host", ∅⟩] ∧
      ¬ (Graph.after linkedTwice).ListsOnce "a" := by
  have hread : (Graph.after linkedTwice).edgesOf "a" .outgoing = .ok [link, link] := by rfl
  refine ⟨by decide, by decide, hread, by rfl, fun h => ?_⟩
  obtain ⟨es, hes, hperm⟩ := h.edges .outgoing
  rw [hread] at hes
  cases hes
  have hone : ((Graph.after linkedTwice).running "a" .outgoing).length = 1 := by decide
  exact absurd (hperm.length_eq.trans hone) (by decide)

end Listing

/-! ## Removals of a vertex -/

/-- The snapshot without a vertex and the edges at it. -/
def Snapshot.without (s : Snapshot) (id : VertexId) : Snapshot :=
  ⟨s.vertices.filter (·.id != id), s.edges.filter (!·.touches id)⟩

namespace Graph

/-- Removing a vertex takes it and the edges at it, and leaves all else as it was. -/
def RemovesOnly (g : Graph) (id : VertexId) : Prop :=
  ∃ v g', g.removeVertex id = .ok (v, g') ∧ g'.snapshot = g.snapshot.without id

/-- What a removal leaves: all other vertices, and the edges that were not
listed at the vertex. -/
theorem WellFormed.snapshot_removeVertex {g g' : Graph} (wf : g.WellFormed) {id : VertexId}
    {v : Vertex} (h : g.removeVertex id = .ok (v, g')) :
    g'.snapshot = ⟨(g.snapshot.without id).vertices,
      g.snapshot.edges.filter (·.id ∉ g.listed id)⟩ := by
  obtain ⟨-, hvertices, hedges, -, -⟩ := removeVertex_eq_ok h
  have hvs : g'.vertices = g.vertices.erase id := Table.ext fun x => by
    rw [hvertices, Table.get?_erase]
  have hes : g'.edges = g.edges.filter fun i _ => i ∉ g.listed id := Table.ext fun i => by
    rw [hedges, Table.get?_filter]
    by_cases hi : i ∈ g.listed id <;> cases g.edges.get? i <;> simp [hi, Option.filter]
  unfold snapshot Snapshot.without
  rw [hvs, hes, Table.erase]
  refine congrArg₂ Snapshot.mk (Table.values_filter fun hx => ?_) (Table.values_filter fun hi => ?_)
  · rw [wf.vertex_id hx]
  · rw [wf.edge_id hi]

/-- A removal is as it should be exactly when no edge is misfiled at the vertex. -/
theorem WellFormed.removesOnly_iff_filed {g : Graph} (wf : g.WellFormed) {id : VertexId}
    (hid : g.contains id = true) : g.RemovesOnly id ↔ ∀ e, ¬ g.Misfiled e id := by
  obtain ⟨v, hv⟩ := contains_iff.mp hid
  obtain ⟨g', hg', -⟩ := removeVertex_spec hv
  have hleft := wf.snapshot_removeVertex hg'
  constructor
  · rintro ⟨_, _, hg'', hsnapshot⟩ e ⟨he, hlisted, ht⟩
    rw [hg'] at hg''
    cases hg''
    -- the edge should be among those that stay, and is not
    have hstays : e ∈ (g.snapshot.without id).edges :=
      List.mem_filter.mpr ⟨wf.stored_of_mem_values.mpr he, by simp [ht]⟩
    rw [← hsnapshot, hleft, List.mem_filter, decide_eq_true_eq] at hstays
    exact hstays.2 hlisted
  · intro hfiled
    refine ⟨v, g', hg', hleft.trans (congrArg _ (List.filter_congr fun e he => ?_))⟩
    have he := wf.stored_of_mem_values.mp he
    cases ht : e.touches id with
    | true => simpa using wf.lists he ht
    | false => simpa using fun hlisted => hfiled e ⟨he, hlisted, ht⟩

/-- Only vertices of the graph list edges. -/
theorem WellFormed.contains_of_listed {g : Graph} (wf : g.WellFormed) {i : EdgeId} {x : VertexId}
    (h : i ∈ g.listed x) : g.contains x = true := by
  rw [contains, Table.contains, ← wf.has_list]
  unfold listed at h
  cases hids : g.incident.get? x with
  | none => simp [hids] at h
  | some ids => rfl

/-! ### Additions that leave an id behind -/

/-- The id of an edge is listed at its ends at most. -/
def OnlyAtEnds (g : Graph) (e : Edge) : Prop :=
  ∀ x, e.id ∈ g.listed x → e.touches x = true

theorem misfiled_addEdge {g g' : Graph} {e : Edge} (h : g.addEdge e = .ok g') {e' : Edge}
    {x : VertexId} : g'.Misfiled e' x ↔
      if e'.id = e.id then e' = e ∧ e.id ∈ g.listed x ∧ e.touches x = false
      else g.Misfiled e' x := by
  obtain ⟨-, -, hedges, hlisted⟩ := addEdge_eq_ok h
  unfold Misfiled
  rw [hedges, Table.get?_put, (hlisted x).1, List.mem_append]
  by_cases hid : e'.id = e.id
  · simp only [hid, if_true, Option.some.injEq]
    constructor
    · rintro ⟨rfl, hmem, ht⟩
      refine ⟨rfl, hmem.resolve_right ?_, ht⟩
      simp [ht]
    · rintro ⟨rfl, hmem, ht⟩
      exact ⟨rfl, .inl hmem, ht⟩
  · have hnew : e'.id ∉ (if e.touches x then [e.id] else []) := by
      split
      · simpa using hid
      · exact List.not_mem_nil
    simp only [hid, if_false, hnew, or_false]

theorem filed_addEdge_iff {g g' : Graph} {e : Edge} (hg : ∀ x e', ¬ g.Misfiled e' x)
    (h : g.addEdge e = .ok g') :
    (∀ x e', ¬ g'.Misfiled e' x) ↔ g.OnlyAtEnds e := by
  constructor
  · intro hg' x hlisted
    by_contra ht
    rw [Bool.not_eq_true] at ht
    exact hg' x e ((misfiled_addEdge h).mpr (by rw [if_pos rfl]; exact ⟨rfl, hlisted, ht⟩))
  · intro hends x e' hmis
    rw [misfiled_addEdge h] at hmis
    split at hmis
    · obtain ⟨-, hlisted, ht⟩ := hmis
      rw [hends x hlisted] at ht
      cases ht
    · exact hg x e' hmis

theorem Misfiled.of_removeVertex {g g' : Graph} {id x : VertexId} {v : Vertex} {e : Edge}
    (h : g.removeVertex id = .ok (v, g')) (hmis : g'.Misfiled e x) : g.Misfiled e x := by
  obtain ⟨he, hlisted, ht⟩ := hmis
  obtain ⟨-, -, hedges, -, hls⟩ := removeVertex_eq_ok h
  rw [hedges] at he
  split at he
  · cases he
  · exact ⟨he, (hls x e.id).1 hlisted, ht⟩

theorem Misfiled.of_addVertex {g : Graph} {v : Vertex} {e : Edge} {x : VertexId}
    (h : (g.addVertex v).Misfiled e x) : g.Misfiled e x := by
  unfold Misfiled at h
  rw [listed_addVertex] at h
  exact h

theorem not_misfiled_empty (x : VertexId) (e : Edge) : ¬ empty.Misfiled e x := by
  rintro ⟨he, -⟩
  cases he

/-- **When a removal takes no more than it should.** After any history, removing
a vertex succeeds and leaves every other vertex and, of the edges away from it,
those whose ids it did not list. So it loses no edge exactly when none is
misfiled at the vertex; and this is so of all vertices throughout a history
exactly when no edge is ever added whose id is listed away from its ends. -/
theorem removesOnly_iff (h : List Change) :
    (∀ id v, (after h).vertices.get? id = some v →
        ∃ g', (after h).removeVertex id = .ok (v, g') ∧
          g'.snapshot.vertices = ((after h).snapshot.without id).vertices ∧
          g'.snapshot.edges = ((after h).snapshot.without id).edges.filter
            (·.id ∉ (after h).listed id)) ∧
      (∀ id, (after h).contains id = true →
        ((after h).RemovesOnly id ↔ ∀ e, ¬ (after h).Misfiled e id)) ∧
      ((∀ h', h' <+: h → ∀ id, (after h').contains id = true → (after h').RemovesOnly id) ↔
        Throughout (AddsOnly OnlyAtEnds) h .empty) := by
  have wf := (reachable_after h).wellFormed
  refine ⟨fun id v hv => ?_, fun id hid => wf.removesOnly_iff_filed hid, ?_⟩
  · obtain ⟨g', hg', -⟩ := removeVertex_spec hv
    have hleft := wf.snapshot_removeVertex hg'
    refine ⟨g', hg', by rw [hleft], ?_⟩
    rw [hleft, Snapshot.without, List.filter_filter]
    refine List.filter_congr fun e he => ?_
    cases ht : e.touches id with
    | true => simpa using wf.lists (wf.stored_of_mem_values.mp he) ht
    | false => simp
  · have hstep := @change_iff (fun g => ∀ x e, ¬ g.Misfiled e x) OnlyAtEnds
      (fun v hg x e hmis => hg x e hmis.of_addVertex)
      (fun _ hg hr x e hmis => hg x e (hmis.of_removeVertex hr)) filed_addEdge_iff
    rw [← always_iff hstep .empty not_misfiled_empty]
    refine forall₂_congr fun h' _ => ?_
    have wf' := (reachable_after h').wellFormed
    constructor
    · intro honly id e hmis
      have hid := wf'.contains_of_listed hmis.2.1
      exact (wf'.removesOnly_iff_filed hid).mp (honly id hid) e hmis
    · exact fun hfiled id hid => (wf'.removesOnly_iff_filed hid).mpr (hfiled id)

end Graph

/-! ### A link that is moved -/

namespace Listing

/-- Three hosts, and a link whose id is used for another link. -/
def relinked : List Change :=
  [.addVertex ⟨"a", "host", ∅⟩, .addVertex ⟨"b", "host", ∅⟩, .addVertex ⟨"c", "host", ∅⟩,
    .addEdge link, .addEdge { link with outId := "b", inId := "c" }]

/-- Removing the first host takes the link between the other two. -/
theorem not_removesOnly_relinked :
    (Graph.after relinked).snapshot =
        ⟨[⟨"a", "host", ∅⟩, ⟨"b", "host", ∅⟩, ⟨"c", "host", ∅⟩],
          [{ link with outId := "b", inId := "c" }]⟩ ∧
      ((Graph.after relinked).removeVertex "a").toOption.map (·.2.snapshot) =
        some ⟨[⟨"b", "host", ∅⟩, ⟨"c", "host", ∅⟩], []⟩ ∧
      ¬ (Graph.after relinked).RemovesOnly "a" := by
  have hremove : ((Graph.after relinked).removeVertex "a").toOption.map (·.2.snapshot) =
      some ⟨[⟨"b", "host", ∅⟩, ⟨"c", "host", ∅⟩], []⟩ := by rfl
  refine ⟨by rfl, hremove, ?_⟩
  rintro ⟨v, g', hg', hsnapshot⟩
  rw [hg'] at hremove
  have hleft : (Graph.after relinked).snapshot.without "a" =
      ⟨[⟨"b", "host", ∅⟩, ⟨"c", "host", ∅⟩], []⟩ :=
    hsnapshot.symm.trans (Option.some.inj hremove)
  exact absurd hleft (by decide)

end Listing

end Inventory
