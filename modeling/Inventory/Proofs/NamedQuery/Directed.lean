import Mathlib.Data.List.Nodup
import Inventory.Proofs.NamedQuery.Results
import Inventory.Proofs.Walk.Noted

/-!
# NamedQuery — where there are directives

A compiled query has a directive for each key of its topology and for no other,
and the directive joins what the elements placed at its key ask, each element
once, however many ways lead to it. So every node that an evaluation looks at has
a directive: none goes by without its constraints.
-/

namespace Inventory

open Definition

/-! ## Keys of a topology -/

/-- The keys of a topology are that of its root and, for each step that is
listed, the one behind the key that it is listed under. -/
def Topology.HasKey (T : Topology) (k : String) : Prop :=
  k = T.rootTrail.key ∨ ∃ k' s, s ∈ T.stepsAt k' ∧ k = k' ++ "|" ++ s.render

/-! ## Elements at a key -/

/-- A directive joins what these elements ask: they are the elements that the
query places at its key, each listed once. -/
structure Directive.Joins (g : Graph) (ctx : Context) (q : NamedQuery) (k : String)
    (d : Directive) (es : List QueryElement) : Prop where
  placed : ∀ e, e ∈ es ↔ q.PlacesAt g ctx k e
  once : (es.map (·.vertexId)).Nodup
  asks : ∀ e ∈ es, e.Asks g
  first : es.head? = some d.element
  constraints : d.constraints = es.flatMap (·.asked g)
  lookups : d.lookups = es.flatMap (·.joined g)

section

variable {g : Graph} {ctx : Context} {q : NamedQuery} {c : QueryTopology}

theorem Directive.ofElements_eq_some {es : List QueryElement} {d : Directive}
    (h : ofElements g es = some d) :
    es.head? = some d.element ∧ d.constraints = es.flatMap (·.asked g) ∧
      d.lookups = es.flatMap (·.joined g) := by
  cases es with
  | nil => cases h
  | cons e es => cases h; exact ⟨rfl, rfl, rfl⟩

/-- In a log without repetitions, no vertex stands for two elements at one key. -/
theorem QueryPlace.nodup_elementsAt {log : List QueryPlace} (honce : log.Nodup)
    (hread : ∀ p ∈ log, p.element.IsRead g) (k : String) :
    ((elementsAt log k).map (·.vertexId)).Nodup := by
  rw [elementsAt, List.map_map]
  apply List.Nodup.map_on _ (honce.filter _)
  intro p hp p' hp' hid
  obtain ⟨hp, hk⟩ := List.mem_filter.mp hp
  obtain ⟨hp', hk'⟩ := List.mem_filter.mp hp'
  rw [beq_iff_eq] at hk hk'
  apply QueryPlace.eq_of_tag (hread p hp) (hread p' hp')
  exact Prod.ext hid (hk.trans hk'.symm)

namespace QueryTopology.Compiles

variable {p : QueryPlace} {log : List QueryPlace}

/-- Elements are placed at the keys of the topology, and only there. -/
theorem reaches_iff_hasKey (h : c.Compiles g ctx p log)
    (hstart : q.StartsAt g ctx c.topology.root p) {k : String} :
    (∃ e, p.Reaches g ctx ⟨e, k⟩) ↔ c.topology.HasKey k := by
  obtain ⟨top, m, -, -, -, rfl⟩ := hstart
  constructor
  · intro ⟨e, he⟩
    cases he with
    | refl => exact .inl rfl
    | tail hx hxy =>
        obtain ⟨s, hxy⟩ := hxy
        have hs := h.mem_steps.mpr ⟨_, _, hx, hxy, rfl⟩
        obtain ⟨-, -, -, -⟩ := hxy
        exact .inr ⟨_, s, hs, rfl⟩
  · intro hk
    rcases hk with rfl | ⟨k', s, hs, rfl⟩
    · exact ⟨top, .refl⟩
    · obtain ⟨x, y, hx, hxy, rfl⟩ := h.mem_steps.mp hs
      have hy := hx.tail ⟨s, hxy⟩
      obtain ⟨-, -, -, -⟩ := hxy
      exact ⟨_, hy⟩

/-- The directives stand at the keys of the topology. -/
theorem mem_keys_iff (h : c.Compiles g ctx p log) (hstart : q.StartsAt g ctx c.topology.root p)
    {k : String} : k ∈ c.directives.keys ↔ c.topology.HasKey k := by
  rw [Table.mem_keys, Table.contains, Option.isSome_iff_exists, h.exists_directive,
    h.reaches_iff_hasKey hstart]

/-- What is placed at a key is what the log has there. -/
theorem mem_elementsAt (h : c.Compiles g ctx p log)
    (hstart : q.StartsAt g ctx c.topology.root p) {k : String} {e : QueryElement} :
    e ∈ QueryPlace.elementsAt log k ↔ q.PlacesAt g ctx k e := by
  rw [QueryPlace.mem_elementsAt, h.mem_log]
  constructor
  · intro he
    exact ⟨_, p, hstart, he⟩
  · intro ⟨root, p', hstart', he⟩
    obtain ⟨-, rfl⟩ := hstart.unique hstart'
    exact he

/-- A directive joins what the elements at its key ask. -/
theorem joins (h : c.Compiles g ctx p log) (hstart : q.StartsAt g ctx c.topology.root p)
    {k : String} {d : Directive} (hd : c.directives.get? k = some d) :
    d.Joins g ctx q k (QueryPlace.elementsAt log k) := by
  obtain ⟨hfirst, hconstraints, hlookups⟩ :=
    Directive.ofElements_eq_some ((h.directives k).symm.trans hd)
  exact {
    placed := fun e => h.mem_elementsAt hstart
    once := QueryPlace.nodup_elementsAt h.once h.read k
    asks := fun e he => h.asks _ (QueryPlace.mem_elementsAt.mp he)
    first := hfirst
    constraints := hconstraints
    lookups := hlookups }

end QueryTopology.Compiles

end

/-! ## Nodes of an evaluation -/

/-- The nodes that the evaluation of a request shows to the hook of its query. -/
def QueryTopology.sightings (q : QueryTopology) (g : Graph) (ctx : Context) (r : QueryRequest) :
    List Sighting :=
  Inventory.sightings g ctx q.topology q.hook (q.starts g r.startFilters) ()

/-- Every node that an evaluation looks at has a directive. -/
theorem QueryTopology.Covers.directive {q : QueryTopology} (h : q.Covers) {g : Graph}
    {ctx : Context} {r : QueryRequest} {x : Sighting} (hx : x ∈ q.sightings g ctx r) :
    ∃ d, q.directives.get? x.node.trail = some d := by
  obtain ⟨t, ht, hkey⟩ := position_of_sightings hx
  rw [← hkey]
  exact h t ht

/-- **The directives of a compiled query are complete and no more.** They stand
at exactly the keys of its topology. Each joins the constraints and lookups of
the elements that are placed at its key, all of which could be read, and each
element counts once. Whatever graph is asked, every node that an evaluation looks
at, those it drops included, finds a directive. -/
theorem ofQuery_directs {g : Graph} (hg : g.Reachable) {ctx : Context} {q : NamedQuery}
    {c : QueryTopology} (h : QueryTopology.ofQuery g ctx q = .ok c) :
    (∀ k, k ∈ c.directives.keys ↔ c.topology.HasKey k) ∧
      (∀ k d, c.directives.get? k = some d → ∃ es, d.Joins g ctx q k es) ∧
      ∀ (i : Graph) (ctx' : Context) (r : QueryRequest), ∀ x ∈ c.sightings i ctx' r,
        ∃ d, c.directives.get? x.node.trail = some d := by
  obtain ⟨p, log, hstart, hc⟩ := compiles_ofQuery hg.wellFormed h
  refine ⟨fun k => hc.mem_keys_iff hstart, fun k d hd => ⟨_, hc.joins hstart hd⟩, ?_⟩
  intro i ctx' r x hx
  have hcovers : c.Covers := fun t ht => hc.directive hstart ht
  exact hcovers.directive hx

namespace Downed

/-- For the links of cards, the constraint of the one element that asks for them
is in force. -/
theorem ofQuery_directs_ask :
    graph.Reachable ∧ QueryTopology.ofQuery graph context Inventory.Ring.query = .ok compiled ∧
      (∃ d es, compiled.directives.get? "host|card|link" = some d ∧ d.constraints = [up] ∧
        d.Joins graph context Inventory.Ring.query "host|card|link" es) ∧
      ∀ x ∈ compiled.sightings graph context request,
        ∃ d, compiled.directives.get? x.node.trail = some d := by
  obtain ⟨-, hjoins, hfound⟩ := ofQuery_directs reachable_graph ofQuery_ask
  obtain ⟨es, hes⟩ := hjoins "host|card|link" _ rfl
  exact ⟨reachable_graph, ofQuery_ask, ⟨_, es, rfl, rfl, hes⟩, hfound graph context request⟩

end Downed

end Inventory
