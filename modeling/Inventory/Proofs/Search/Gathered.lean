import Mathlib.Logic.Relation
import Inventory.Proofs.ResultTree
import Inventory.Proofs.Search.Hops
import Inventory.Proofs.Trail

/-!
# Search — what is gathered below a vertex

A collection goes over tagged hops, does not enter vertices of a trimmed type
and does not go on from pruned ones. Over any graph it gathers every vertex
that can be reached this way, each in one place: at a neighbour of its parent,
and no deeper than the levels allow. As with walks, the ids of the trees built
so far are the vertices met, so that everything a node leads on to stands
somewhere in the finished tree.
-/

namespace Inventory

open ResultTree

/-! ## Collections over a graph -/

namespace CollectOptions

/-- A collection goes on from a vertex that is not pruned, over one hop, to a
vertex that is not trimmed. -/
structure Onward (o : CollectOptions) (g : Graph) (v w : Vertex) : Prop where
  unpruned : o.prunes v = false
  untrimmed : o.trims w = false
  stored : g.vertices.get? w.id = some w
  hops : g.Hops o.tag o.direction v.id w.id

/-- Hops lead from one vertex to another, none of them to a trimmed vertex or
on from a pruned one. -/
def Reaches (o : CollectOptions) (g : Graph) : Vertex → Vertex → Prop :=
  Relation.ReflTransGen (o.Onward g)

/-! ## What a collection adds -/

/-- What a part of a collection adds to the vertices met: trees of vertices
that were not met before. -/
structure Adds (met met' : List VertexId) (ts : List ResultTree) : Prop where
  once : (idsAll ts).Nodup
  fresh : ∀ id ∈ idsAll ts, id ∉ met
  met_iff : ∀ id, id ∈ met' ↔ id ∈ met ∨ id ∈ idsAll ts

theorem Adds.nothing (met : List VertexId) : Adds met met [] where
  once := List.nodup_nil
  fresh := by simp
  met_iff := by simp

theorem Adds.cons {met met₁ met₂ : List VertexId} {t : ResultTree} {ts : List ResultTree}
    (h : Adds met met₁ [t]) (h' : Adds met₁ met₂ ts) : Adds met met₂ (t :: ts) := by
  have hids : idsAll (t :: ts) = idsAll [t] ++ idsAll ts := by simp
  refine ⟨?_, ?_, fun id => ?_⟩
  · -- what the first tree holds has been met when the rest begins
    rw [hids]
    exact List.nodup_append.mpr ⟨h.once, h'.once, fun a ha b hb hab =>
      h'.fresh b hb ((h.met_iff b).mpr (.inr (hab ▸ ha)))⟩
  · rw [hids]
    intro id hid
    rcases List.mem_append.mp hid with hid | hid
    · exact h.fresh id hid
    · exact fun hm => h'.fresh id hid ((h.met_iff id).mpr (.inl hm))
  · rw [hids, h'.met_iff, h.met_iff, List.mem_append, or_assoc]

/-- A tree is added with its top, which was not met before. -/
theorem Adds.node {met met' : List VertexId} {n : ResultNode} {cs : List ResultTree}
    (hnew : n.vertex.id ∉ met) (h : Adds (n.vertex.id :: met) met' cs) :
    Adds met met' [.node n cs] := by
  have hids : idsAll [.node n cs] = n.vertex.id :: idsAll cs := by simp [ids_node]
  refine ⟨?_, ?_, fun id => ?_⟩
  · rw [hids]
    exact List.nodup_cons.mpr ⟨fun hn => h.fresh _ hn List.mem_cons_self, h.once⟩
  · rw [hids]
    exact List.forall_mem_cons.mpr
      ⟨hnew, fun id hid hm => h.fresh id hid (List.mem_cons_of_mem _ hm)⟩
  · rw [hids, h.met_iff, List.mem_cons, List.mem_cons, or_assoc, or_left_comm]

/-- What holds of a tree that is built with so many levels left, of the vertices
met by then. -/
structure Grown (o : CollectOptions) (g : Graph) (levels : Nat) (met : List VertexId)
    (t : ResultTree) : Prop where
  deep : ∀ {d s}, t.At d s → d < levels
  child : ∀ {d s}, t.At d s → ∀ c ∈ s.children, o.Onward g s.top.vertex c.top.vertex ∧
    c.top.trail = s.top.trail ++ "|" ++ c.top.vertex.nodeType
  /-- What a node leads on to has been met. -/
  complete : ∀ {d s}, t.At d s → ∀ {w}, o.Onward g s.top.vertex w → w.id ∈ met

variable {o : CollectOptions} {g : Graph} {levels : Nat}

theorem Grown.mono {met met' : List VertexId} {t : ResultTree} (h : o.Grown g levels met t)
    (hm : ∀ id ∈ met, id ∈ met') : o.Grown g levels met' t where
  deep := h.deep
  child := h.child
  complete ht _ hw := hm _ (h.complete ht hw)

/-- A tree grows by a top over grown children. -/
theorem Grown.node {met : List VertexId} {n : ResultNode} {cs : List ResultTree}
    (hchild : ∀ c ∈ cs, o.Onward g n.vertex c.top.vertex ∧
      c.top.trail = n.trail ++ "|" ++ c.top.vertex.nodeType)
    (hcomplete : ∀ {w}, o.Onward g n.vertex w → w.id ∈ met)
    (hcs : ∀ c ∈ cs, o.Grown g levels met c) : o.Grown g (levels + 1) met (.node n cs) where
  deep ht := by
    cases ht with
    | here => exact Nat.succ_pos levels
    | under hc hs => exact Nat.succ_lt_succ ((hcs _ hc).deep hs)
  child ht := by
    cases ht with
    | here => exact hchild
    | under hc hs => exact (hcs _ hc).child hs
  complete ht := by
    cases ht with
    | here => exact hcomplete
    | under hc hs => exact (hcs _ hc).complete hs

/-! ### Calls -/

/-- What a call for a vertex at a trail is expected to build. -/
structure Builds (o : CollectOptions) (g : Graph) (levels : Nat) (v : Vertex) (trail : Trail)
    (met met' : List VertexId) (t : ResultTree) : Prop where
  adds : Adds met met' [t]
  vertex : t.top.vertex = v
  trail : t.top.trail = trail.key
  grown : o.Grown g levels met' t

/-- When nothing had been met before, what is met is what stands in the tree. -/
theorem Builds.grown_alone {v : Vertex} {trail : Trail} {met : List VertexId} {t : ResultTree}
    (h : o.Builds g levels v trail [] met t) : o.Grown g levels t.ids t :=
  h.grown.mono fun id hid => by simpa using (h.adds.met_iff id).mp hid

/-- Calls for neighbours one after another meet all that are not trimmed, and
build a tree for those that were not met before. -/
theorem adds_gatherEach
    {visit : Vertex → Trail → List VertexId → SearchOutcome (ResultTree × List VertexId)}
    {trail : Trail}
    (hvisit : ∀ {w trail met t met'}, w.id ∉ met → visit w trail met = .ok (t, met') →
      o.Builds g levels w trail met met' t)
    {ws : List Vertex} {met met' : List VertexId} {ts : List ResultTree}
    (h : gatherEach visit o trail ws met = .ok (ts, met')) :
    Adds met met' ts ∧ (∀ w ∈ ws, o.trims w = false → w.id ∈ met') ∧
      ∀ t ∈ ts, t.top.vertex ∈ ws ∧ o.trims t.top.vertex = false ∧
        t.top.trail = trail.key ++ "|" ++ t.top.vertex.nodeType ∧ o.Grown g levels met' t := by
  induction ws generalizing met ts with
  | nil =>
      cases h
      exact ⟨.nothing _, by simp, by simp⟩
  | cons w ws ih =>
      rw [gatherEach] at h
      split at h
      · next hskip =>
          obtain ⟨hadds, hmet, hgrown⟩ := ih h
          refine ⟨hadds, List.forall_mem_cons.mpr ⟨fun htrim => ?_, hmet⟩, fun t ht => ?_⟩
          · rcases hskip with hold | htrim'
            · exact (hadds.met_iff _).mpr (.inl hold)
            · rw [htrim] at htrim'
              cases htrim'
          · obtain ⟨hmem, hrest⟩ := hgrown t ht
            exact ⟨List.mem_cons_of_mem _ hmem, hrest⟩
      · next hgo =>
          rw [not_or] at hgo
          obtain ⟨⟨t, met₁⟩, hfirst, h⟩ := Outcome.bind_eq_ok.mp h
          obtain ⟨⟨ts, met₂⟩, hrest, h⟩ := Outcome.bind_eq_ok.mp h
          cases h
          obtain ⟨hadds₁, hvertex, htrail, hgrown₁⟩ := hvisit hgo.1 hfirst
          obtain ⟨hadds, hmet, hgrown⟩ := ih hrest
          have hkeeps : ∀ id ∈ met₁, id ∈ met' := fun id hid => (hadds.met_iff id).mpr (.inl hid)
          have htop : t.top.vertex.id ∈ met₁ :=
            (hadds₁.met_iff _).mpr (.inr (by simp [mem_ids.mpr ⟨0, t, .here t, rfl⟩]))
          refine ⟨hadds₁.cons hadds, List.forall_mem_cons.mpr ⟨fun _ => ?_, hmet⟩,
            List.forall_mem_cons.mpr ⟨⟨?_, ?_, ?_, hgrown₁.mono hkeeps⟩, fun t ht => ?_⟩⟩
          · exact hkeeps _ (hvertex ▸ htop)
          · rw [hvertex]
            exact List.mem_cons_self
          · rw [hvertex]
            exact Bool.eq_false_iff.mpr hgo.2
          · rw [htrail, Trail.key_extend, hvertex]
            rfl
          · obtain ⟨hmem, hrest⟩ := hgrown t ht
            exact ⟨List.mem_cons_of_mem _ hmem, hrest⟩

/-- **The step lemma**: a call for a vertex that was not met builds its tree. -/
theorem builds_gather (wf : g.WellFormed) {v : Vertex} {trail : Trail}
    {met met' : List VertexId} {t : ResultTree} (hnew : v.id ∉ met)
    (h : gather g o levels v trail met = .ok (t, met')) :
    o.Builds g levels v trail met met' t := by
  induction levels generalizing v trail met met' t with
  | zero => cases h
  | succ levels ih =>
      rw [gather] at h
      dsimp only at h
      split at h
      · next hpruned =>
          cases h
          refine ⟨.node hnew (.nothing _), rfl, rfl, .node (by simp) ?_ (by simp)⟩
          intro w hw
          rw [hw.unpruned] at hpruned
          cases hpruned
      · next hunpruned =>
          obtain ⟨ws, hws, h⟩ := Outcome.bind_eq_ok.mp h
          obtain ⟨⟨cs, met₁⟩, hcs, h⟩ := Outcome.bind_eq_ok.mp h
          cases h
          have hmem := wf.mem_taggedNeighbours hws
          obtain ⟨hadds, hmet, hgrown⟩ := adds_gatherEach ih hcs
          refine ⟨.node hnew hadds, rfl, rfl, .node (fun c hc => ?_) (fun {w} hw => ?_)
            fun c hc => (hgrown c hc).2.2.2⟩
          · obtain ⟨hc, htrim, htrail, -⟩ := hgrown c hc
            obtain ⟨hstored, hhops⟩ := (hmem _).mp hc
            exact ⟨⟨Bool.eq_false_iff.mpr hunpruned, htrim, hstored, hhops⟩, htrail⟩
          · exact hmet w ((hmem w).mpr ⟨hw.stored, hw.hops⟩) hw.untrimmed

end CollectOptions

/-! ## Whole collections -/

/-- What a collection below a vertex is expected to gather. -/
structure Gathered (g : Graph) (v : Vertex) (o : CollectOptions) (t : ResultTree) : Prop where
  top : t.top.vertex = v ∧ t.top.trail = v.nodeType
  /-- No vertex stands twice. -/
  once : t.ids.Nodup
  /-- The vertices are those that hops lead to, none of them to a trimmed vertex
  or on from a pruned one. -/
  mem_ids_iff : ∀ id, id ∈ t.ids ↔ ∃ w, o.Reaches g v w ∧ w.id = id
  /-- A child is one tagged hop from its parent. -/
  child : ∀ {d s}, t.At d s → ∀ c ∈ s.children,
    g.vertices.get? c.top.vertex.id = some c.top.vertex ∧
      g.Hops o.tag o.direction s.top.vertex.id c.top.vertex.id ∧
      c.top.trail = s.top.trail ++ "|" ++ c.top.vertex.nodeType
  deep : ∀ {d s}, t.At d s → d ≤ o.maxLevels

namespace CollectOptions.Grown

variable {o : CollectOptions} {g : Graph} {levels : Nat} {t : ResultTree}

theorem reaches {met : List VertexId} (h : o.Grown g levels met t) {d : Nat} {s : ResultTree}
    (hs : t.At d s) : o.Reaches g t.top.vertex s.top.vertex := by
  induction d generalizing s with
  | zero =>
      cases hs
      exact .refl
  | succ d ih =>
      obtain ⟨p, hp, hc⟩ := hs.parent
      exact (ih hp).tail (h.child hp s hc).1

/-- What stands below the top is stored. -/
theorem stored {met : List VertexId} (h : o.Grown g levels met t) {d : Nat} {s : ResultTree}
    (hs : t.At (d + 1) s) : g.vertices.get? s.top.vertex.id = some s.top.vertex := by
  obtain ⟨p, hp, hc⟩ := hs.parent
  exact (h.child hp s hc).1.stored

/-- What the top reaches stands in the tree, when nothing but the tree was met.
The top need not be the vertex that is stored under its id. -/
theorem mem_ids_of_reaches (h : o.Grown g levels t.ids t) {w : Vertex}
    (hw : o.Reaches g t.top.vertex w) :
    w.id ∈ t.ids ∧ (w = t.top.vertex ∨
      g.vertices.get? w.id = some w ∧ o.prunes t.top.vertex = false) := by
  induction hw with
  | refl => exact ⟨mem_ids.mpr ⟨0, t, .here t, rfl⟩, .inl rfl⟩
  | @tail v w _ hvw ih =>
      obtain ⟨hv, rfl | ⟨hstored, hopen⟩⟩ := ih
      · exact ⟨h.complete (.here t) hvw, .inr ⟨hvw.stored, hvw.unpruned⟩⟩
      · refine ⟨?_, .inr ⟨hvw.stored, hopen⟩⟩
        obtain ⟨d, s, hs, hid⟩ := mem_ids.mp hv
        refine h.complete hs ⟨?_, hvw.untrimmed, hvw.stored, hid ▸ hvw.hops⟩
        cases d with
        | zero =>
            cases hs
            exact hopen
        | succ d =>
            obtain rfl : v = s.top.vertex := Graph.eq_of_id_eq hstored (h.stored hs) hid.symm
            exact hvw.unpruned

end CollectOptions.Grown

/-- **What is gathered.** Whatever the graph and the options, a collection that
succeeds yields a tree within the levels, of exactly the vertices that hops
reach without entering a trimmed vertex or leaving a pruned one, each once, each
child one hop from its parent. -/
theorem collectTagged_gathers {g : Graph} (hg : g.Reachable) {v : Vertex} {o : CollectOptions}
    {t : ResultTree} (h : collectTagged g v o = .ok t) : Gathered g v o t := by
  obtain ⟨⟨t, met⟩, hgather, h⟩ := Outcome.bind_eq_ok.mp h
  cases h
  obtain ⟨hadds, hvertex, htrail, hgrown⟩ :=
    CollectOptions.builds_gather hg.wellFormed List.not_mem_nil hgather
  have hids : idsAll [t] = t.ids := by simp
  have hgrown : o.Grown g (o.maxLevels + 1) t.ids t := by
    refine hgrown.mono fun id hid => ?_
    rcases (hadds.met_iff id).mp hid with hnone | hid
    · cases hnone
    · exact hids ▸ hid
  refine ⟨⟨hvertex, htrail⟩, hids ▸ hadds.once, fun id => ?_, fun hs c hc => ?_, fun hs => ?_⟩
  · rw [← hvertex]
    constructor
    · intro hid
      obtain ⟨d, s, hs, rfl⟩ := mem_ids.mp hid
      exact ⟨_, hgrown.reaches hs, rfl⟩
    · rintro ⟨w, hw, rfl⟩
      exact (hgrown.mem_ids_of_reaches hw).1
  · obtain ⟨honward, hkey⟩ := hgrown.child hs c hc
    exact ⟨honward.stored, honward.hops, hkey⟩
  · exact Nat.lt_succ_iff.mp (hgrown.deep hs)

/-! ### A rack with two hosts -/

namespace Search

def hostVertices : List Vertex :=
  [⟨"rack", "rack", ∅⟩, ⟨"h", "host", ∅⟩, ⟨"i", "host", ∅⟩, ⟨"v", "guest", ∅⟩,
    ⟨"w", "guest", ∅⟩, ⟨"d", "disk", ∅⟩]

def hostEdges : List Edge :=
  [Edge.withTag ⟨"1", "rack", "h", "has", ∅⟩ "down",
    Edge.withTag ⟨"2", "rack", "i", "has", ∅⟩ "down",
    Edge.withTag ⟨"3", "v", "h", "runs-on", ∅⟩ "down-REV",
    Edge.withTag ⟨"4", "w", "i", "runs-on", ∅⟩ "down-REV",
    Edge.withTag ⟨"5", "h", "d", "has", ∅⟩ "down", Edge.withTag ⟨"6", "v", "rack", "on", ∅⟩ "down"]

/-- Two hosts in a rack, a guest on each, one of which leads back to the rack,
and a disk. -/
def hosts : Graph := (Graph.ofParts hostVertices hostEdges).toOption.getD .empty

/-- No disks, and nothing below any host but one. -/
def belowHost : CollectOptions where
  tag := "down"
  direction := .outgoing
  maxLevels := 2
  trim := ["disk"]
  prune := some ⟨"host", "h"⟩

/-- The guest of the kept host is gathered, the other guest and the disk are not. -/
theorem collectTagged_gathers_hosts :
    hosts.Reachable ∧ ∃ t, collectTagged hosts ⟨"rack", "rack", ∅⟩ belowHost = .ok t ∧
      t.ids = ["rack", "h", "v", "i"] ∧ Gathered hosts ⟨"rack", "rack", ∅⟩ belowHost t := by
  have hg : hosts.Reachable :=
    Graph.reachable_ofParts (show Graph.ofParts hostVertices hostEdges = .ok hosts from rfl)
  have hrun : collectTagged hosts ⟨"rack", "rack", ∅⟩ belowHost =
      .ok (.node ⟨⟨"rack", "rack", ∅⟩, "rack", false, false, none, ∅, ∅⟩
        [.node ⟨⟨"h", "host", ∅⟩, "rack|host", false, false, none, ∅, ∅⟩
          [.node ⟨⟨"v", "guest", ∅⟩, "rack|host|guest", false, false, none, ∅, ∅⟩ []],
          .node ⟨⟨"i", "host", ∅⟩, "rack|host", false, false, none, ∅, ∅⟩ []]) := by rfl
  exact ⟨hg, _, hrun, by decide, collectTagged_gathers hg hrun⟩

end Search

end Inventory
