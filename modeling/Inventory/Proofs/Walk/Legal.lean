import Inventory.Proofs.Walk.Collected
import Mathlib.Logic.Relation

/-!
# Walk — legal paths and what is collected along them

A topology says which paths through a graph are legal: each vertex is a
neighbour of the one before it and fits a next step of the trail so far. A
vertex is met once and looked at under the trail it is first met at, so not
every vertex at the end of a legal path is collected. Collected are the ends of
those paths whose every step is also legal where the vertex it leaves stands.
-/

namespace Inventory

/-! ## Legal paths -/

/-- A vertex at a trail. -/
structure Meeting where
  vertex : Vertex
  trail : Trail

/-- Where every legal path of a topology begins. -/
def Topology.start (topology : Topology) (root : Vertex) : Meeting := ⟨root, topology.rootTrail⟩

namespace Meeting

variable {g : Graph} {topology : Topology}

/-- A legal path goes on to a neighbour that fits a next step, unless it has
come to a repetition of the root step. -/
inductive Onward (g : Graph) (topology : Topology) : Meeting → Meeting → Prop where
  | step {p : Meeting} {s : TrailStep} {w : Vertex} :
      (p.trail.below = [] ∨ topology.root.fits p.vertex = false) → s ∈ topology.next p.trail →
      g.vertices.get? w.id = some w → g.Adjacent p.vertex.id w.id → s.fits w = true →
      Onward g topology p ⟨w, p.trail.extend s⟩

/-- Some legal path leads from one meeting to another. -/
def Legal (g : Graph) (topology : Topology) : Meeting → Meeting → Prop :=
  Relation.ReflTransGen (Onward g topology)

/-- A step that is also legal wherever the vertex that it leaves stands in a tree. -/
def Follows (g : Graph) (topology : Topology) (t : ResultTree) (p q : Meeting) : Prop :=
  Onward g topology p q ∧ ∀ {d s}, t.At d s → s.top.vertex.id = p.vertex.id →
    q.trail.last ∈ topology.stepsAt s.top.trail

/-- Some legal path leads from one meeting to another, and each of its steps is
also legal where the vertex that it leaves stands in the tree. -/
def Followed (g : Graph) (topology : Topology) (t : ResultTree) : Meeting → Meeting → Prop :=
  Relation.ReflTransGen (Follows g topology t)

/-- Some legal path that does not come back to the root leads to a meeting. -/
def Roams (g : Graph) (topology : Topology) (root : Vertex) : Meeting → Prop :=
  Relation.ReflTransGen (fun p q => Onward g topology p q ∧ q.vertex.id ≠ root.id)
    (topology.start root)

theorem Roams.stored {root : Vertex} (hroot : g.vertices.get? root.id = some root) {p : Meeting}
    (h : Roams g topology root p) : g.vertices.get? p.vertex.id = some p.vertex := by
  cases h with
  | refl => exact hroot
  | tail _ hpq =>
      obtain ⟨⟨-, -, hw, -, -⟩, -⟩ := hpq
      exact hw

theorem Onward.below_ne_nil {p q : Meeting} (h : Onward g topology p q) : q.trail.below ≠ [] := by
  obtain ⟨_, _, _, _, _⟩ := h
  exact Trail.extend_below_ne_nil _ _

end Meeting

/-! ## What is collected -/

open Meeting ResultTree

section

variable {g : Graph} {ctx : Context} {topology : Topology} {root : Vertex} {t : ResultTree}

theorem Collects.stored (hc : Collects g ctx topology root t)
    (hroot : g.vertices.get? root.id = some root) {d : Nat} {s : ResultTree} (h : t.At d s) :
    g.vertices.get? s.top.vertex.id = some s.top.vertex := by
  cases d with
  | zero =>
      cases h
      rw [hc.top.1]
      exact hroot
  | succ d =>
      obtain ⟨p, hp, hs⟩ := h.parent
      exact (hc.child hp s hs).1

/-- Every node of a collected tree is at the end of a followed path, along which
nothing but the root repeats the root step and the root is not met again. -/
theorem Collects.path (hc : Collects g ctx topology root t) {d : Nat} {s : ResultTree}
    (h : t.At d s) :
    ∃ trail, Relation.ReflTransGen (fun p q => Follows g topology t p q ∧ q.vertex.id ≠ root.id)
        (topology.start root) ⟨s.top.vertex, trail⟩ ∧
      trail.key = s.top.trail ∧ trail.below.length = d := by
  induction d generalizing s with
  | zero =>
      cases h
      rw [hc.top.1]
      exact ⟨topology.rootTrail, .refl, hc.top.2.symm, rfl⟩
  | succ d ih =>
      obtain ⟨p, hp, hs⟩ := h.parent
      obtain ⟨trail, hpath, hkey, hlength⟩ := ih hp
      obtain ⟨hw, hadj, step, hstep, hfits, htrail⟩ := hc.child hp s hs
      have hopen : trail.below = [] ∨ topology.root.fits p.top.vertex = false := by
        cases d with
        | zero => exact .inl (List.length_eq_zero_iff.mp hlength)
        | succ d =>
            refine .inr (Bool.eq_false_iff.mpr fun hf => ?_)
            rw [hc.nested hp hf] at hs
            cases hs
      have hnext : step ∈ topology.next trail := by
        rwa [Topology.next_eq, hkey]
      refine ⟨trail.extend step, hpath.tail ⟨⟨.step hopen hnext hw hadj hfits, ?_⟩, ?_⟩, ?_, ?_⟩
      -- the vertex that the step leaves stands nowhere else
      · intro d' p' hp' hid
        obtain ⟨-, rfl⟩ := hp.unique hc.once hp' hid
        rwa [Trail.last_extend]
      · intro hid
        obtain ⟨hzero, -⟩ := (At.here t).unique hc.once h (by rw [hid, hc.top.1])
        cases hzero
      · rw [Trail.key_extend, hkey, htrail]
      · rw [Trail.extend, List.length_append, hlength]
        rfl

theorem Collects.roams (hc : Collects g ctx topology root t) {d : Nat} {s : ResultTree}
    (h : t.At d s) : ∃ trail, Roams g topology root ⟨s.top.vertex, trail⟩ ∧
      trail.key = s.top.trail ∧ trail.below.length = d := by
  obtain ⟨trail, hpath, hend⟩ := hc.path h
  exact ⟨trail, Relation.ReflTransGen.mono (fun _ _ h => ⟨h.1.1, h.2⟩) _ _ hpath, hend⟩

/-- What a followed path comes to stands in the tree, below the top unless the
path is empty. -/
theorem Collects.stands (hc : Collects g ctx topology root t)
    (hroot : g.vertices.get? root.id = some root) {p : Meeting}
    (h : Followed g topology t (topology.start root) p) :
    ∃ d s, t.At d s ∧ s.top.vertex = p.vertex ∧ (p.trail.below = [] → d = 0) := by
  induction h with
  | refl => exact ⟨0, t, .here t, hc.top.1, fun _ => rfl⟩
  | @tail p q _ hpq ih =>
      obtain ⟨hon, hlegal⟩ := hpq
      obtain ⟨d, s, hs, hvertex, hzero⟩ := ih
      have hstep := hlegal hs (congrArg Vertex.id hvertex)
      have hbelow := hon.below_ne_nil
      obtain ⟨hopen, _, hw, hadj, hfits⟩ := hon
      rw [Trail.last_extend] at hstep
      rw [← hvertex] at hopen hadj
      have hmem := hc.complete hs (hopen.imp_left hzero) _ hstep _ hw hadj hfits
      obtain ⟨d', s', hs', hid⟩ := mem_ids.mp hmem
      refine ⟨d', s', hs', ?_, fun hnil => absurd hnil hbelow⟩
      exact Option.some.inj ((hc.stored hroot hs').symm.trans (hid ▸ hw))

/-- **Which vertices are collected.** A stored vertex occurs in the instance
under a root exactly when some legal path leads to it each of whose steps is
also legal where the vertex that it leaves stands in the instance. -/
theorem mem_collectInstance_iff (hg : g.Reachable)
    (hroot : g.vertices.get? root.id = some root)
    (h : collectInstance g ctx topology root = .ok t) {w : Vertex}
    (hw : g.vertices.get? w.id = some w) :
    w.id ∈ t.ids ↔ ∃ trail, Followed g topology t (topology.start root) ⟨w, trail⟩ := by
  have hc : Collects g ctx topology root t :=
    collectDecorated_collects hg (fun _ => ⟨rfl, rfl⟩) hroot h
  constructor
  · intro hmem
    obtain ⟨d, s, hs, hid⟩ := mem_ids.mp hmem
    obtain ⟨trail, hpath, -⟩ := hc.path hs
    obtain rfl : s.top.vertex = w :=
      Option.some.inj ((hc.stored hroot hs).symm.trans (hid ▸ hw))
    exact ⟨trail, Relation.ReflTransGen.mono (fun _ _ h => h.1) _ _ hpath⟩
  · rintro ⟨trail, hpath⟩
    obtain ⟨d, s, hs, hvertex, -⟩ := hc.stands hroot hpath
    exact mem_ids.mpr ⟨d, s, hs, congrArg Vertex.id hvertex⟩

end

/-! ### A detour -/

namespace Walk

/-- A vertex without properties whose id is its node type. -/
def plainVertex (id : String) : Vertex := ⟨id, id, ∅⟩

def detourVertices : List Vertex := ["host", "card", "link", "peer"].map plainVertex

def detourEdges : List Edge :=
  [⟨"1", "host", "card", "has", ∅⟩, ⟨"2", "host", "link", "has", ∅⟩,
    ⟨"3", "card", "link", "uses", ∅⟩, ⟨"4", "link", "peer", "uses", ∅⟩]

/-- A host with a card and a link, the link used by the card, and a peer at the link. -/
def detour : Graph :=
  (Graph.ofParts detourVertices detourEdges).toOption.getD .empty

/-- Cards with their links, and links with their peers. -/
def detourTopology : Topology where
  root := ⟨"host", none⟩
  entries := Table.ofList [("host", [⟨"card", none⟩, ⟨"link", none⟩]),
    ("host|card", [⟨"link", none⟩]), ("host|link", [⟨"peer", none⟩])]

/-- What is collected under the host: the link stands below the card. -/
def detourTree : ResultTree :=
  .node ⟨plainVertex "host", "host", false, false, none, ∅, ∅⟩
    [.node ⟨plainVertex "card", "host|card", false, false, none, ∅, ∅⟩
      [.node ⟨plainVertex "link", "host|card|link", false, false, none, ∅, ∅⟩ []]]

/-- The link as it is met straight from the host. -/
def straightLink : Meeting := ⟨plainVertex "link", ⟨⟨"host", none⟩, [⟨"link", none⟩]⟩⟩

theorem detour_reachable : detour.Reachable :=
  Graph.reachable_ofParts (show Graph.ofParts detourVertices detourEdges = .ok detour from rfl)

theorem collectInstance_detour :
    collectInstance detour {} detourTopology (plainVertex "host") = .ok detourTree := by rfl

/-- The link is collected, and the path over the card is followed to it. -/
theorem mem_collectInstance_iff_detour :
    detour.Reachable ∧ detour.vertices.get? "host" = some (plainVertex "host") ∧
      collectInstance detour {} detourTopology (plainVertex "host") = .ok detourTree ∧
      detour.vertices.get? "link" = some (plainVertex "link") ∧
      "link" ∈ detourTree.ids ∧ ("link" ∈ detourTree.ids ↔ ∃ trail,
        Followed detour detourTopology detourTree (detourTopology.start (plainVertex "host"))
          ⟨plainVertex "link", trail⟩) := by
  have hroot : detour.vertices.get? "host" = some (plainVertex "host") := by decide
  have hlink : detour.vertices.get? "link" = some (plainVertex "link") := by decide
  exact ⟨detour_reachable, hroot, collectInstance_detour, hlink, by decide,
    mem_collectInstance_iff (w := plainVertex "link") detour_reachable hroot
      collectInstance_detour hlink⟩

/-- The peer is at the end of a legal path straight over the link, but the link
was met below the card before, where no peer is legal. -/
theorem collectInstance_misses_peer :
    detour.Reachable ∧ detour.vertices.get? "host" = some (plainVertex "host") ∧
      detour.vertices.get? "peer" = some (plainVertex "peer") ∧
      (∃ trail, Legal detour detourTopology (detourTopology.start (plainVertex "host"))
        ⟨plainVertex "peer", trail⟩) ∧
      ∃ t, collectInstance detour {} detourTopology (plainVertex "host") = .ok t ∧
        "peer" ∉ t.ids := by
  have hlink : Onward detour detourTopology (detourTopology.start (plainVertex "host"))
      straightLink :=
    .step (s := ⟨"link", none⟩) (.inl rfl) (by decide) (by decide)
      ⟨⟨"2", "host", "link", "has", ∅⟩, by decide, .inl (by decide)⟩ (by decide)
  have hpeer : Onward detour detourTopology straightLink
      ⟨plainVertex "peer", straightLink.trail.extend ⟨"peer", none⟩⟩ :=
    .step (.inr (by decide)) (by decide) (by decide)
      ⟨⟨"4", "link", "peer", "uses", ∅⟩, by decide, .inl (by decide)⟩ (by decide)
  have hpath : Legal detour detourTopology (detourTopology.start (plainVertex "host")) _ :=
    (Relation.ReflTransGen.single hlink).tail hpeer
  exact ⟨detour_reachable, by decide, by decide, ⟨_, hpath⟩, _, collectInstance_detour, by decide⟩

end Walk

end Inventory
