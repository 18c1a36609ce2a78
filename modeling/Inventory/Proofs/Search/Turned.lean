import Inventory.Proofs.Search.Levels

/-!
# Search — edges turned around

A tag names one logical direction: a hop in a direction is a hop back in the
opposite one, and an edge with the tag makes the same hops as the edge turned around
with the reverse tag. So a search cannot tell which way round an edge is stored.
-/

namespace Inventory

/-! ## Hops back -/

namespace Edge

/-- An edge leads back in the opposite direction. -/
theorem leads_opposite {e : Edge} {d : Direction} {a b : VertexId} :
    e.Leads d.opposite b a ↔ e.Leads d a b := by
  cases d with
  | outgoing => exact and_comm
  | incoming => exact and_comm
  | both => exact ⟨Joins.symm, Joins.symm⟩

/-- An edge with the ends of another, the other way round, leads in a direction where
the other leads in the opposite one. -/
theorem leads_of_turned {e e' : Edge} (hout : e'.outId = e.inId) (hin : e'.inId = e.outId)
    {d : Direction} {a b : VertexId} : e'.Leads d.opposite a b ↔ e.Leads d a b := by
  cases d with
  | outgoing => simp only [Direction.opposite, Leads, hout, hin]
  | incoming => simp only [Direction.opposite, Leads, hout, hin]
  | both =>
      simp only [Direction.opposite, Leads, Joins, hout, hin]
      rw [or_comm, and_comm, and_comm (a := e.inId = a)]

end Edge

namespace Graph

/-- A hop in a direction is a hop back in the opposite one. -/
theorem hops_opposite {g : Graph} {tag : String} {d : Direction} {a b : VertexId} :
    g.Hops tag d.opposite b a ↔ g.Hops tag d a b := by
  simp only [Hops, Edge.leads_opposite]

/-! ## Turned edges -/

/-- The second graph has an edge of the first turned around: in the place of one with
the tag stands one with the reverse tag, between the same ends the other way round. -/
structure Turns (tag : String) (g g' : Graph) (e e' : Edge) : Prop where
  stored : g.edges.get? e.id = some e
  tagged : e.hasTag tag = true ∧ e.hasTag (tag ++ reverseMark) = false
  retagged : e'.hasTag (tag ++ reverseMark) = true ∧ e'.hasTag tag = false
  out_eq : e'.outId = e.inId
  in_eq : e'.inId = e.outId
  /-- It has the id of the other or a new one. -/
  own_id : e'.id = e.id ∨ g.edges.get? e'.id = none
  vertices : g'.vertices = g.vertices
  edges : g'.edges = (g.edges.erase e.id).put e'.id e'

variable {tag : String} {g g' : Graph} {e e' : Edge}

namespace Turns

/-- The other edges are those of the first graph. -/
theorem get?_iff (h : Turns tag g g' e e') {f : Edge} :
    g'.edges.get? f.id = some f ↔ f = e' ∨ f ≠ e ∧ g.edges.get? f.id = some f := by
  rw [h.edges, Table.get?_put, Table.get?_erase]
  by_cases hnew : f.id = e'.id
  · rw [if_pos hnew]
    constructor
    · intro hf
      cases hf
      exact .inl rfl
    · rintro (rfl | ⟨hne, hf⟩)
      · rfl
      · -- no other edge of the first graph has the id
        rcases h.own_id with hid | hid
        · rw [hnew, hid, h.stored] at hf
          exact absurd (Option.some.inj hf).symm hne
        · rw [hnew, hid] at hf
          cases hf
  · rw [if_neg hnew]
    have hne' : f ≠ e' := fun he => hnew (congrArg Edge.id he)
    by_cases hold : f.id = e.id
    · rw [if_pos hold]
      constructor
      · intro hf
        cases hf
      · rintro (rfl | ⟨hne, hf⟩)
        · exact absurd rfl hne'
        · rw [hold, h.stored] at hf
          exact absurd (Option.some.inj hf).symm hne
    · rw [if_neg hold]
      have hne : f ≠ e := fun he => hold (congrArg Edge.id he)
      simp [hne, hne']

/-- Hops are the same in both graphs. -/
theorem hops_iff (h : Turns tag g g' e e') {d : Direction} {a b : VertexId} :
    g'.Hops tag d a b ↔ g.Hops tag d a b := by
  have hway : (e'.hasTag tag = true ∧ e'.Leads d a b ∨
        e'.hasTag (tag ++ reverseMark) = true ∧ e'.Leads d.opposite a b) ↔
      (e.hasTag tag = true ∧ e.Leads d a b ∨
        e.hasTag (tag ++ reverseMark) = true ∧ e.Leads d.opposite a b) := by
    simp [h.tagged, h.retagged, Edge.leads_of_turned h.out_eq h.in_eq]
  constructor
  · rintro ⟨f, hf, hleads⟩
    rcases h.get?_iff.mp hf with rfl | ⟨-, hf⟩
    · exact ⟨e, h.stored, hway.mp hleads⟩
    · exact ⟨f, hf, hleads⟩
  · rintro ⟨f, hf, hleads⟩
    by_cases hne : f = e
    · subst hne
      exact ⟨e', h.get?_iff.mpr (.inl rfl), hway.mpr hleads⟩
    · exact ⟨f, h.get?_iff.mpr (.inr ⟨hne, hf⟩), hleads⟩

/-- A climb reaches the same vertices in both graphs. -/
theorem reaches_iff (h : Turns tag g g' e e') {q : Climb} (hq : q.tag = tag) {v w : Vertex} :
    q.Reaches g' v w ↔ q.Reaches g v w := by
  have honward : ∀ u u', q.Onward g' u u' ↔ q.Onward g u u' := by
    subst hq
    intro u u'
    constructor
    · rintro ⟨hpassed, hstored, hhops⟩
      exact ⟨hpassed, h.vertices ▸ hstored, h.hops_iff.mp hhops⟩
    · rintro ⟨hpassed, hstored, hhops⟩
      exact ⟨hpassed, h.vertices ▸ hstored, h.hops_iff.mpr hhops⟩
  have hsame : q.Onward g' = q.Onward g := funext₂ fun u u' => propext (honward u u')
  rw [Climb.Reaches, Climb.Reaches, hsame]

/-- A search starts from the same vertices in both graphs. -/
theorem starts_eq (h : Turns tag g g' e e') (f : StartFilter) : f.starts g' = f.starts g := by
  have hfind : g'.find = g.find := by
    funext t filters
    rw [find, find, h.vertices]
  rw [StartFilter.starts, StartFilter.starts, hfind]

/-- Searches that succeed in both graphs find the same vertices. -/
theorem findTops_eq (h : Turns tag g g' e e') (wf : g.WellFormed) (wf' : g'.WellFormed)
    {f : StartFilter} {q : Climb} (hq : q.tag = tag) {tops tops' : List Vertex}
    (htops : findTops g f q = .ok tops) (htops' : findTops g' f q = .ok tops') :
    tops' = tops := by
  obtain ⟨starts, found, hstarts, rfl, hfound⟩ := findTops_eq_ok wf htops
  obtain ⟨starts', found', hstarts', rfl, hfound'⟩ := findTops_eq_ok wf' htops'
  rw [h.starts_eq, hstarts] at hstarts'
  cases hstarts'
  have hsame : found' = found := by
    refine Table.ext fun id => Option.ext fun w => ?_
    rw [hfound', hfound, h.vertices]
    simp only [h.reaches_iff hq]
  rw [hsame]

end Turns

/-- An edge is turned around by adding it that way under its own id. -/
theorem turns_addEdge (hstored : g.edges.get? e.id = some e) (hid : e'.id = e.id)
    (hout : e'.outId = e.inId) (hin : e'.inId = e.outId)
    (htag : e.hasTag tag = true ∧ e.hasTag (tag ++ reverseMark) = false)
    (htag' : e'.hasTag (tag ++ reverseMark) = true ∧ e'.hasTag tag = false)
    (h : g.addEdge e' = .ok g') : Turns tag g g' e e' := by
  obtain ⟨-, hvertices, hedges, -⟩ := addEdge_eq_ok h
  refine ⟨hstored, htag, htag', hout, hin, .inl hid, hvertices, Table.ext fun i => ?_⟩
  rw [hedges, Table.get?_put, Table.get?_put, Table.get?_erase, ← hid]
  split <;> rfl

/-- **A tag names one logical direction.** In every reachable graph a vertex is a
neighbour of another in a direction exactly when the other is its neighbour in the
opposite one. And wherever an edge with the tag is replaced by one the other way
round with the reverse tag, every vertex keeps its neighbours in every direction, and
searches for top vertices that succeed before and after find the same. -/
theorem tag_is_one_direction (hg : g.Reachable) :
    (∀ (tag : String) (d : Direction) {v w : Vertex}, g.vertices.get? v.id = some v →
      g.vertices.get? w.id = some w → ∃ ws vs, taggedNeighbours g v.id tag d = .ok ws ∧
        taggedNeighbours g w.id tag d.opposite = .ok vs ∧ (w ∈ ws ↔ v ∈ vs)) ∧
      ∀ {tag : String} {g' : Graph} {e e' : Edge}, g'.Reachable → Turns tag g g' e e' →
        (∀ (d : Direction) {v : Vertex}, g.vertices.get? v.id = some v → ∃ ws ws',
          taggedNeighbours g v.id tag d = .ok ws ∧ taggedNeighbours g' v.id tag d = .ok ws' ∧
            ∀ u, u ∈ ws' ↔ u ∈ ws) ∧
        ∀ {f : StartFilter} {q : Climb} {tops tops' : List Vertex}, q.tag = tag →
          findTops g f q = .ok tops → findTops g' f q = .ok tops' → tops' = tops := by
  have wf := hg.wellFormed
  refine ⟨fun tag d v w hv hw => ?_, fun {tag g' e e'} hg' hturns => ⟨fun d v hv => ?_, ?_⟩⟩
  · obtain ⟨ws, hws⟩ := wf.taggedNeighbours_total (contains_iff.mpr ⟨v, hv⟩) tag d
    obtain ⟨vs, hvs⟩ := wf.taggedNeighbours_total (contains_iff.mpr ⟨w, hw⟩) tag d.opposite
    refine ⟨ws, vs, hws, hvs, ?_⟩
    rw [wf.mem_taggedNeighbours hws, wf.mem_taggedNeighbours hvs, hops_opposite]
    exact ⟨fun h => ⟨hv, h.2⟩, fun h => ⟨hw, h.2⟩⟩
  · have wf' := hg'.wellFormed
    have hv' : g'.vertices.get? v.id = some v := hturns.vertices ▸ hv
    obtain ⟨ws, hws⟩ := wf.taggedNeighbours_total (contains_iff.mpr ⟨v, hv⟩) tag d
    obtain ⟨ws', hws'⟩ := wf'.taggedNeighbours_total (contains_iff.mpr ⟨v, hv'⟩) tag d
    refine ⟨ws, ws', hws, hws', fun u => ?_⟩
    rw [wf.mem_taggedNeighbours hws, wf'.mem_taggedNeighbours hws', hturns.vertices,
      hturns.hops_iff]
  · exact fun hq htops htops' => hturns.findTops_eq wf hg'.wellFormed hq htops htops'

end Graph

/-! ### A link stored the other way round -/

namespace Search

/-- The link from the second node of the ring to the first. -/
def backLink : Edge := Edge.withTag ⟨"3", "n", "m", "link", ∅⟩ "up"

/-- The same link, stored from the first node to the second. -/
def turnedLink : Edge := Edge.withTag ⟨"3", "m", "n", "link", ∅⟩ "up-REV"

/-- The sites with the link turned around. -/
def turnedSites : Graph := (sites.addEdge turnedLink).toOption.getD .empty

/-- Either node is a neighbour of the other the way it should be, and turning the link
around changes neither the neighbours of the second node nor the site that is found. -/
theorem tag_is_one_direction_sites :
    sites.Reachable ∧ turnedSites.Reachable ∧
      Graph.Turns "up" sites turnedSites backLink turnedLink ∧
      (∃ ws vs, taggedNeighbours sites secondNode.id "up" .outgoing = .ok ws ∧
        taggedNeighbours sites firstNode.id "up" .incoming = .ok vs ∧
        (firstNode ∈ ws ↔ secondNode ∈ vs)) ∧
      (∃ ws ws', taggedNeighbours sites secondNode.id "up" .outgoing = .ok ws ∧
        taggedNeighbours turnedSites secondNode.id "up" .outgoing = .ok ws' ∧
        ∀ u, u ∈ ws' ↔ u ∈ ws) ∧
      ∃ tops, findTops sites ⟨"app", []⟩ toSites = .ok tops ∧
        findTops turnedSites ⟨"app", []⟩ toSites = .ok tops := by
  have hg : sites.Reachable :=
    Graph.reachable_ofParts (show Graph.ofParts siteVertices siteEdges = .ok sites from rfl)
  have hadd : sites.addEdge turnedLink = .ok turnedSites := rfl
  have hturns : Graph.Turns "up" sites turnedSites backLink turnedLink :=
    Graph.turns_addEdge rfl rfl rfl rfl (by decide) (by decide) hadd
  have hfirst : sites.vertices.get? firstNode.id = some firstNode := rfl
  have hsecond : sites.vertices.get? secondNode.id = some secondNode := rfl
  obtain ⟨hback, hturned⟩ := Graph.tag_is_one_direction hg
  obtain ⟨hsame, hfound⟩ := hturned (hg.addEdge hadd) hturns
  have hrun : findTops sites ⟨"app", []⟩ toSites = .ok [⟨"s", "site", ∅⟩] := by rfl
  obtain ⟨tops, hrun'⟩ : ∃ tops, findTops turnedSites ⟨"app", []⟩ toSites = .ok tops := ⟨_, rfl⟩
  exact ⟨hg, hg.addEdge hadd, hturns, hback "up" .outgoing hsecond hfirst,
    hsame .outgoing hsecond, _, hrun, hfound rfl hrun hrun' ▸ hrun'⟩

end Search

end Inventory
