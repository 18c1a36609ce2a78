import Inventory.Removal.Pass
import Inventory.Proofs.Graph.Reload
import Inventory.Proofs.Walk.Bounded
import Inventory.Proofs.Walk.Passed

/-!
# Walk — collecting from a graph that was read back

A graph that was read back lists its edges in another order, so a walk may meet
its vertices in another order and at other trails. What is collected is the
same where it does not matter at which trail a vertex is met: when every two
meetings of a vertex lead on to the same vertices, are both deep enough or both
too deep, and carry the same flag.
-/

namespace Inventory

open Meeting ResultTree

/-! ## Graphs that differ in their listings -/

namespace Graph.Reordered

variable {g g' : Graph}

theorem adjacent_iff (h : g.Reordered g') {a b : VertexId} : g.Adjacent a b ↔ g'.Adjacent a b := by
  unfold Adjacent
  rw [h.edges]

theorem onward (h : g.Reordered g') {topology : Topology} {p q : Meeting}
    (hpq : Onward g topology p q) : Onward g' topology p q := by
  obtain ⟨hopen, hs, hw, hadj, hfits⟩ := hpq
  exact .step hopen hs (h.vertices ▸ hw) (h.adjacent_iff.mp hadj) hfits

theorem roams (h : g.Reordered g') {topology : Topology} {root : Vertex} {p : Meeting}
    (hp : Roams g topology root p) : Roams g' topology root p :=
  Relation.ReflTransGen.mono (fun _ _ hpq => ⟨h.onward hpq.1, hpq.2⟩) _ _ hp

theorem roams_iff (h : g.Reordered g') {topology : Topology} {root : Vertex} {p : Meeting} :
    Roams g topology root p ↔ Roams g' topology root p :=
  ⟨h.roams, h.symm.roams⟩

end Graph.Reordered

/-! ## Settled topologies -/

/-- It does not matter at which trail a vertex is met: every two meetings of it
lead on to the same vertices and are both within the levels or both too deep. -/
structure Settled (g : Graph) (ctx : Context) (topology : Topology) (root : Vertex) : Prop where
  onward : ∀ {p q r}, Roams g topology root p → Roams g topology root q →
    p.vertex.id = q.vertex.id → Onward g topology p r →
      ∃ trail, Onward g topology q ⟨r.vertex, trail⟩
  levels : ∀ {p q}, Roams g topology root p → Roams g topology root q →
    p.vertex.id = q.vertex.id → p.trail.below.length ≤ ctx.limits.levels →
      q.trail.below.length ≤ ctx.limits.levels

/-- Every two meetings of a vertex carry the same flag. -/
def SettledFlags (g : Graph) (topology : Topology) (root : Vertex) (flag : String → Bool) : Prop :=
  ∀ {p q}, Roams g topology root p → Roams g topology root q → p.vertex.id = q.vertex.id →
    flag p.trail.key = flag q.trail.key

/-- A topology is settled where no vertex can be met at two trails. -/
theorem settled_of_one_trail {g : Graph} {ctx : Context} {topology : Topology} {root : Vertex}
    (hroot : g.vertices.get? root.id = some root)
    (hone : ∀ {p q}, Roams g topology root p → Roams g topology root q →
      p.vertex.id = q.vertex.id → p.trail = q.trail) :
    Settled g ctx topology root ∧ ∀ flag, SettledFlags g topology root flag := by
  have heq : ∀ {p q}, Roams g topology root p → Roams g topology root q →
      p.vertex.id = q.vertex.id → p = q := by
    intro p q hp hq hid
    have hvertex : p.vertex = q.vertex :=
      Option.some.inj ((hp.stored hroot).symm.trans (hid ▸ hq.stored hroot))
    have htrail := hone hp hq hid
    cases p
    cases q
    simp_all
  refine ⟨⟨fun {p q r} hp hq hid hpr => ?_, fun {p q} hp hq hid hlevels => ?_⟩,
    fun flag {p q} hp hq hid => ?_⟩
  · exact ⟨r.trail, heq hp hq hid ▸ hpr⟩
  · exact heq hp hq hid ▸ hlevels
  · rw [heq hp hq hid]

/-! ## What is marked -/

/-- The ids of all vertices, each with its flag. -/
def ResultTree.marks (t : ResultTree) : List (VertexId × Bool) :=
  t.preorder.map fun n => (n.vertex.id, n.delete)

theorem ResultTree.mem_marks {t : ResultTree} {id : VertexId} {b : Bool} :
    (id, b) ∈ t.marks ↔ ∃ d s, t.At d s ∧ s.top.vertex.id = id ∧ s.top.delete = b := by
  rw [marks, List.mem_map]
  constructor
  · rintro ⟨n, hn, hmark⟩
    obtain ⟨d, s, hs, rfl⟩ := at_of_mem_preorder hn
    cases hmark
    exact ⟨d, s, hs, rfl, rfl⟩
  · rintro ⟨d, s, hs, rfl, rfl⟩
    exact ⟨s.top, hs.mem_preorder, rfl⟩

/-- A function that decorates nodes with the flag of their trail, and leaves
them where they are. -/
structure Flagging (f : ResultNode → ResultNode) (flag : String → Bool) : Prop where
  keeps : ∀ n, (f n).vertex = n.vertex ∧ (f n).trail = n.trail
  delete : ∀ v k, (f { vertex := v, trail := k }).delete = flag k

/-- The flag of a trail, false when there is none. -/
def DeleteFlags.flag (flags : DeleteFlags) (k : String) : Bool := (flags.get? k).getD false

theorem flagging_id : Flagging id fun _ => false where
  keeps _ := ⟨rfl, rfl⟩
  delete _ _ := rfl

theorem flagging_mark (flags : DeleteFlags) : Flagging flags.mark flags.flag where
  keeps _ := ⟨rfl, rfl⟩
  delete _ _ := rfl

section

variable {g : Graph} {ctx : Context} {topology : Topology} {root : Vertex} {t : ResultTree}
  {f : ResultNode → ResultNode} {flag : String → Bool}

/-- Every node carries the flag of its trail. -/
theorem collect_delete (hf : Flagging f flag) {levels : Nat} {v : Vertex} {trail : Trail}
    {c c' : Collector Unit}
    (h : collect g ctx topology (Hook.decorate f) levels v trail c = (.ok (some t), c'))
    {n : ResultNode} (hn : n ∈ t.preorder) : n.delete = flag n.trail := by
  obtain ⟨v, k, s, how, s', hhook, -⟩ := collect_passes h hn
  cases hhook
  rw [hf.delete, (hf.keeps _).2]

/-! ## What is collected where a topology is settled -/

/-- Where the topology is settled, the collected vertices are those that some
legal path leads to. -/
theorem Collects.mem_ids_iff_roams (hc : Collects g ctx topology root t)
    (hsettled : Settled g ctx topology root) {id : VertexId} :
    id ∈ t.ids ↔ ∃ p, Roams g topology root p ∧ p.vertex.id = id := by
  constructor
  · intro hid
    obtain ⟨d, s, hs, rfl⟩ := mem_ids.mp hid
    obtain ⟨trail, hpath, -⟩ := hc.roams hs
    exact ⟨_, hpath, rfl⟩
  · rintro ⟨p, hp, rfl⟩
    induction hp with
    | refl => exact mem_ids.mpr ⟨0, t, .here t, congrArg Vertex.id hc.top.1⟩
    | @tail p q hp hpq ih =>
        -- the vertex before stands somewhere, and from there the path goes on as well
        obtain ⟨d, s, hs, hid⟩ := mem_ids.mp ih
        obtain ⟨trail, hpath, hkey, hlength⟩ := hc.roams hs
        obtain ⟨trail', hon⟩ := hsettled.onward hp hpath hid.symm hpq.1
        cases hon with
        | step hopen hstep hw hadj hfits =>
            rw [Topology.next_eq, hkey] at hstep
            refine hc.complete hs (hopen.imp_left fun hnil => ?_) _ hstep _ hw hadj hfits
            rw [← hlength]
            exact List.length_eq_zero_iff.mpr hnil

/-- What was collected shows that every legal path stays within the limits. -/
theorem Collects.bounds (hc : Collects g ctx topology root t)
    (hsettled : Settled g ctx topology root) : Within g ctx topology root t.ids where
  levels {p} hp := by
    obtain ⟨d, s, hs, hid⟩ := mem_ids.mp ((hc.mem_ids_iff_roams hsettled).mpr ⟨p, hp, rfl⟩)
    obtain ⟨trail, hpath, -, hlength⟩ := hc.roams hs
    have hdeep : trail.below.length ≤ ctx.limits.levels := hlength ▸ hc.deep hs
    exact hsettled.levels hpath hp hid hdeep
  known {p} hp := (hc.mem_ids_iff_roams hsettled).mpr ⟨p, hp, rfl⟩
  count := by
    have hsize : t.ids.length = t.size := by simp [ids, size]
    rw [hsize]
    exact hc.within

/-- Where topology and flags are settled, the marks are read off the legal paths. -/
theorem Collects.mem_marks_iff_roams (hc : Collects g ctx topology root t)
    (hsettled : Settled g ctx topology root)
    (hflags : SettledFlags g topology root flag)
    (hdelete : ∀ n ∈ t.preorder, n.delete = flag n.trail) {id : VertexId} {b : Bool} :
    (id, b) ∈ t.marks ↔
      ∃ p, Roams g topology root p ∧ p.vertex.id = id ∧ flag p.trail.key = b := by
  have hnode : ∀ {d s}, t.At d s → ∃ trail, Roams g topology root ⟨s.top.vertex, trail⟩ ∧
      flag trail.key = s.top.delete := by
    intro d s hs
    obtain ⟨trail, hpath, hkey, -⟩ := hc.roams hs
    exact ⟨trail, hpath, by rw [hkey, hdelete _ hs.mem_preorder]⟩
  rw [mem_marks]
  constructor
  · rintro ⟨d, s, hs, rfl, rfl⟩
    obtain ⟨trail, hpath, hflag⟩ := hnode hs
    exact ⟨_, hpath, rfl, hflag⟩
  · rintro ⟨p, hp, rfl, rfl⟩
    obtain ⟨d, s, hs, hid⟩ := mem_ids.mp ((hc.mem_ids_iff_roams hsettled).mpr ⟨p, hp, rfl⟩)
    obtain ⟨trail, hpath, hflag⟩ := hnode hs
    exact ⟨d, s, hs, hid, by rw [← hflag, hflags hpath hp hid]⟩

end

/-! ## Two graphs -/

/-- Two outcomes are both errors, or hold the same vertices with the same flags. -/
def Agree : Outcome ResultTree → Outcome ResultTree → Prop
  | .ok t, .ok t' => ∀ m, m ∈ t.marks ↔ m ∈ t'.marks
  | .error _, .error _ => True
  | _, _ => False

/-- A vertex in both trees stands at trails with the same next steps, and with
the same flag. -/
def Alike (topology : Topology) (t t' : ResultTree) : Prop :=
  ∀ n ∈ t.preorder, ∀ n' ∈ t'.preorder, n.vertex.id = n'.vertex.id →
    topology.stepsAt n.trail = topology.stepsAt n'.trail ∧ n.delete = n'.delete

theorem Alike.symm {topology : Topology} {t t' : ResultTree} (h : Alike topology t t') :
    Alike topology t' t :=
  fun n' hn' n hn hid => ⟨(h n hn n' hn' hid.symm).1.symm, (h n hn n' hn' hid.symm).2.symm⟩

section

variable {g g' : Graph} {ctx : Context} {topology : Topology} {root : Vertex}
  {f : ResultNode → ResultNode} {flag : String → Bool}

/-- A path that is followed in one tree is followed in a tree that is alike. -/
theorem Collects.followed_of_alike {t t' : ResultTree} (hc : Collects g ctx topology root t)
    (hroot : g.vertices.get? root.id = some root) (hre : g.Reordered g')
    (halike : Alike topology t t') {p : Meeting}
    (h : Followed g topology t (topology.start root) p) :
    Followed g' topology t' (topology.start root) p := by
  induction h with
  | refl => exact .refl
  | @tail p q hp hpq ih =>
      obtain ⟨d, s, hs, hvertex, -⟩ := hc.stands hroot hp
      refine ih.tail ⟨hre.onward hpq.1, fun {d' s'} hs' hid => ?_⟩
      have hsteps := (halike _ hs.mem_preorder _ hs'.mem_preorder (by rw [hvertex, hid])).1
      rw [← hsteps]
      exact hpq.2 hs (congrArg Vertex.id hvertex)

theorem Collects.marks_of_alike {t t' : ResultTree} (hc : Collects g ctx topology root t)
    (hc' : Collects g' ctx topology root t') (hroot : g.vertices.get? root.id = some root)
    (hre : g.Reordered g') (halike : Alike topology t t') {m : VertexId × Bool}
    (hm : m ∈ t.marks) : m ∈ t'.marks := by
  obtain ⟨d, s, hs, hid, hdelete⟩ := mem_marks.mp hm
  obtain ⟨trail, hpath, -⟩ := hc.path hs
  have hfollowed : Followed g topology t (topology.start root) ⟨s.top.vertex, trail⟩ :=
    Relation.ReflTransGen.mono (fun _ _ h => h.1) _ _ hpath
  obtain ⟨d', s', hs', hvertex, -⟩ := hc'.stands (hre.vertices ▸ hroot)
    (hc.followed_of_alike hroot hre halike hfollowed)
  have hsame := (halike _ hs.mem_preorder _ hs'.mem_preorder (by rw [hvertex])).2
  exact mem_marks.mpr ⟨d', s', hs', by rw [hvertex, hid], by rw [← hsame, hdelete]⟩

theorem Settled.reordered (h : Settled g ctx topology root) (hre : g.Reordered g') :
    Settled g' ctx topology root where
  onward hp hq hid hpr := by
    obtain ⟨trail, hqr⟩ := h.onward (hre.symm.roams hp) (hre.symm.roams hq) hid
      (hre.symm.onward hpr)
    exact ⟨trail, hre.onward hqr⟩
  levels hp hq hid := h.levels (hre.symm.roams hp) (hre.symm.roams hq) hid

theorem Within.reordered {ids : List VertexId} (h : Within g ctx topology root ids)
    (hre : g.Reordered g') : Within g' ctx topology root ids where
  levels hp := h.levels (hre.symm.roams hp)
  known hp := h.known (hre.symm.roams hp)
  count := h.count

/-- Where the topology is settled, what succeeds on one graph succeeds on the other. -/
theorem collectDecorated_transfers {t : ResultTree} (hg : g.Reachable) (hg' : g'.Reachable)
    (hre : g.Reordered g') (hroot : g.vertices.get? root.id = some root)
    (hf : Flagging f flag) (hsettled : Settled g ctx topology root)
    (h : collectDecorated g ctx topology f root = .ok t) :
    ∃ t', collectDecorated g' ctx topology f root = .ok t' := by
  have hc : Collects g ctx topology root t := collectDecorated_collects hg hf.keeps hroot h
  have hwithin := (hc.bounds hsettled).reordered hre
  exact collectDecorated_total hg'.wellFormed (hre.vertices ▸ hroot)
    (collectDecorated_eq_ok h).1 hwithin hf.keeps

theorem collectDecorated_agree (hg : g.Reachable) (hg' : g'.Reachable) (hre : g.Reordered g')
    (hroot : g.vertices.get? root.id = some root) (hf : Flagging f flag)
    (hsettled : Settled g ctx topology root) (hflags : SettledFlags g topology root flag) :
    Agree (collectDecorated g ctx topology f root) (collectDecorated g' ctx topology f root) := by
  have hroot' : g'.vertices.get? root.id = some root := hre.vertices ▸ hroot
  have hsettled' := hsettled.reordered hre
  cases h : collectDecorated g ctx topology f root with
  | error e =>
      cases h' : collectDecorated g' ctx topology f root with
      | error e' => trivial
      | ok t' =>
          obtain ⟨t, ht⟩ := collectDecorated_transfers hg' hg hre.symm hroot' hf hsettled' h'
          rw [h] at ht
          cases ht
  | ok t =>
      obtain ⟨t', h'⟩ := collectDecorated_transfers hg hg' hre hroot hf hsettled h
      rw [h']
      have hc : Collects g ctx topology root t := collectDecorated_collects hg hf.keeps hroot h
      have hc' : Collects g' ctx topology root t' :=
        collectDecorated_collects hg' hf.keeps hroot' h'
      have hflags' : SettledFlags g' topology root flag :=
        fun hp hq hid => hflags (hre.symm.roams hp) (hre.symm.roams hq) hid
      rintro ⟨id, b⟩
      rw [hc.mem_marks_iff_roams hsettled hflags
          fun n hn => collect_delete hf (collectDecorated_eq_ok h).2.choose_spec hn,
        hc'.mem_marks_iff_roams hsettled' hflags'
          fun n hn => collect_delete hf (collectDecorated_eq_ok h').2.choose_spec hn]
      simp only [hre.roams_iff]

theorem collectDecorated_marks (hg : g.Reachable) (hg' : g'.Reachable) (hre : g.Reordered g')
    (hroot : g.vertices.get? root.id = some root) (hf : Flagging f flag) {t t' : ResultTree}
    (h : collectDecorated g ctx topology f root = .ok t)
    (h' : collectDecorated g' ctx topology f root = .ok t') (halike : Alike topology t t')
    (m : VertexId × Bool) : m ∈ t.marks ↔ m ∈ t'.marks := by
  have hroot' : g'.vertices.get? root.id = some root := hre.vertices ▸ hroot
  have hc : Collects g ctx topology root t := collectDecorated_collects hg hf.keeps hroot h
  have hc' : Collects g' ctx topology root t' := collectDecorated_collects hg' hf.keeps hroot' h'
  exact ⟨hc.marks_of_alike hc' hroot hre halike,
    hc'.marks_of_alike hc hroot' hre.symm halike.symm⟩

end

/-! ## Reading back -/

/-- **Collecting after reading back.** A graph that was built without repeating
an edge id is read back up to the order of its lists. Where a topology is
settled, collecting then succeeds on both graphs or on neither, with the same
vertices; so does collecting for a delete, with the same flags where these are
settled too. In general two successes give the same vertices and flags unless
some vertex stands at trails with different next steps or flags. -/
theorem collect_ofSnapshot {g : Graph} (hg : g.BuiltOnce) {ctx : Context} {topology : Topology}
    {root : Vertex} (hroot : g.vertices.get? root.id = some root) :
    ∃ g', Graph.ofSnapshot g.snapshot = .ok g' ∧ g.Reordered g' ∧
      (Settled g ctx topology root →
        Agree (collectInstance g ctx topology root) (collectInstance g' ctx topology root) ∧
        ∀ flags, SettledFlags g topology root flags.flag →
          Agree (collectFlagged g ctx topology flags root)
            (collectFlagged g' ctx topology flags root)) ∧
      ∀ {t t'}, Alike topology t t' →
        (collectInstance g ctx topology root = .ok t →
          collectInstance g' ctx topology root = .ok t' → ∀ m, m ∈ t.marks ↔ m ∈ t'.marks) ∧
        ∀ flags, collectFlagged g ctx topology flags root = .ok t →
          collectFlagged g' ctx topology flags root = .ok t' → ∀ m, m ∈ t.marks ↔ m ∈ t'.marks := by
  obtain ⟨g', hg', hre⟩ := hg.reordered
  have hreach : g'.Reachable := Graph.reachable_ofParts hg'
  refine ⟨g', hg', hre, fun hsettled => ⟨?_, fun flags hflags => ?_⟩, fun {t t'} halike =>
    ⟨fun h h' => ?_, fun flags h h' => ?_⟩⟩
  · exact collectDecorated_agree hg.reachable hreach hre hroot flagging_id hsettled
      fun _ _ _ => rfl
  · exact collectDecorated_agree hg.reachable hreach hre hroot (flagging_mark flags) hsettled
      hflags
  · exact collectDecorated_marks hg.reachable hreach hre hroot flagging_id h h' halike
  · exact collectDecorated_marks hg.reachable hreach hre hroot (flagging_mark flags) h h' halike

/-! ### A rack -/

namespace Walk

def rackTop : Vertex := ⟨"rack", "rack", ∅⟩

def rackVertices : List Vertex :=
  [rackTop, ⟨"node-1", "node", ∅⟩, ⟨"node-2", "node", ∅⟩, ⟨"disk", "disk", ∅⟩]

/-- The second node was put into the rack before the first. -/
def rackEdges : List Edge :=
  [⟨"2", "rack", "node-2", "has", ∅⟩, ⟨"1", "rack", "node-1", "has", ∅⟩,
    ⟨"3", "node-1", "node-2", "link", ∅⟩, ⟨"4", "node-2", "disk", "has", ∅⟩]

/-- A rack with two nodes, one of which has a disk. -/
def rack : Graph := (Graph.ofParts rackVertices rackEdges).toOption.getD .empty

/-- Nodes below racks, and disks below nodes. -/
def diskTopology : Topology where
  root := ⟨"rack", none⟩
  entries := Table.ofList [("rack", [⟨"node", none⟩]), ("rack|node", [⟨"disk", none⟩])]

/-- Nodes below racks, and disks and linked nodes below those. -/
def linkTopology : Topology where
  root := ⟨"rack", none⟩
  entries := Table.ofList [("rack", [⟨"node", none⟩]),
    ("rack|node", [⟨"disk", none⟩, ⟨"node", none⟩])]

theorem rack_builtOnce : rack.BuiltOnce :=
  Graph.builtOnce_ofParts (by decide)
    (show Graph.ofParts rackVertices rackEdges = .ok rack from rfl)

theorem rack_stored : rack.vertices.get? "rack" = some rackTop := by decide

/-- The nodes of the rack, and the disks of its nodes. -/
def nodeTrail : Trail := diskTopology.rootTrail.extend ⟨"node", none⟩

def diskTrail : Trail := nodeTrail.extend ⟨"disk", none⟩

/-- Every node type is met at one trail. -/
theorem trail_of_roams {p : Meeting} (h : Roams rack diskTopology rackTop p) :
    (p.vertex.nodeType = "rack" ∧ p.trail = diskTopology.rootTrail) ∨
      (p.vertex.nodeType = "node" ∧ p.trail = nodeTrail) ∨
      (p.vertex.nodeType = "disk" ∧ p.trail = diskTrail) := by
  induction h with
  | refl => exact .inl ⟨rfl, rfl⟩
  | @tail p q _ hpq ih =>
      obtain ⟨⟨-, hs, -, -, hfits⟩, -⟩ := hpq
      simp only [TrailStep.fits, Bool.and_eq_true, beq_iff_eq] at hfits
      rcases ih with ⟨-, htrail⟩ | ⟨-, htrail⟩ | ⟨-, htrail⟩ <;> rw [htrail] at hs ⊢
      · rw [show diskTopology.next diskTopology.rootTrail = [⟨"node", none⟩] from rfl,
          List.mem_singleton] at hs
        rw [hs] at hfits ⊢
        exact .inr (.inl ⟨hfits.1, rfl⟩)
      · rw [show diskTopology.next nodeTrail = [⟨"disk", none⟩] from rfl,
          List.mem_singleton] at hs
        rw [hs] at hfits ⊢
        exact .inr (.inr ⟨hfits.1, rfl⟩)
      · rw [show diskTopology.next diskTrail = [] from rfl] at hs
        cases hs

theorem settled_rack :
    Settled rack {} diskTopology rackTop ∧
      ∀ flag, SettledFlags rack diskTopology rackTop flag := by
  refine settled_of_one_trail rack_stored fun {p q} hp hq hid => ?_
  have hvertex : p.vertex = q.vertex :=
    Option.some.inj ((hp.stored rack_stored).symm.trans (hid ▸ hq.stored rack_stored))
  have hq' := trail_of_roams hq
  rw [← hvertex] at hq'
  symm
  rcases trail_of_roams hp with ⟨htype, htrail⟩ | ⟨htype, htrail⟩ | ⟨htype, htrail⟩ <;>
    rw [htype] at hq' <;> rw [htrail] <;> simpa using hq'

/-- Without links the rack is collected from both graphs alike, for a delete as well. -/
theorem collect_ofSnapshot_rack :
    rack.BuiltOnce ∧ rack.vertices.get? "rack" = some rackTop ∧
      Settled rack {} diskTopology rackTop ∧
      ∃ g', Graph.ofSnapshot rack.snapshot = .ok g' ∧ g' ≠ rack ∧
        Agree (collectInstance rack {} diskTopology rackTop)
          (collectInstance g' {} diskTopology rackTop) ∧
        ∀ flags, Agree (collectFlagged rack {} diskTopology flags rackTop)
          (collectFlagged g' {} diskTopology flags rackTop) := by
  obtain ⟨hsettled, hflags⟩ := settled_rack
  obtain ⟨g', hg', -, hagree, -⟩ :=
    @collect_ofSnapshot rack rack_builtOnce {} diskTopology rackTop rack_stored
  have hne : g' ≠ rack := by
    rintro rfl
    revert hg'
    decide
  obtain ⟨hinstance, hflagged⟩ := hagree hsettled
  exact ⟨rack_builtOnce, rack_stored, hsettled, g', hg', hne, hinstance,
    fun flags => hflagged flags (hflags _)⟩

/-- With links, the second node is met straight from the rack in one graph and
below the first node, where no disk is legal, in the other. -/
theorem collectInstance_loses_disk :
    rack.BuiltOnce ∧ rack.vertices.get? "rack" = some rackTop ∧
      ∃ g' t t', Graph.ofSnapshot rack.snapshot = .ok g' ∧
        collectInstance rack {} linkTopology rackTop = .ok t ∧
        collectInstance g' {} linkTopology rackTop = .ok t' ∧
        "disk" ∈ t.ids ∧ "disk" ∉ t'.ids := by
  refine ⟨rack_builtOnce, rack_stored, _, _, _, rfl, rfl, rfl, ?_, ?_⟩ <;> decide

end Walk

end Inventory
