import Inventory.Proofs.Search.Gathered
import Inventory.Proofs.Search.Turned

/-!
# Search — climbing back from what was gathered

Collecting and climbing are dual: what is gathered below a vertex over tagged hops
leads back to the vertex over the same hops in the opposite direction. A climb from a
gathered vertex follows its line in the tree upwards, until it comes to a vertex of
the top's type; the top itself is found when no vertex on the line is in its way.
-/

namespace Inventory

/-! ## Lines of a tree -/

namespace ResultTree

/-- The nodes from the top of a tree down to the top of a subtree. -/
inductive Line : ResultTree → List ResultNode → ResultTree → Prop where
  | here (t : ResultTree) : Line t [t.top] t
  | under {t c s : ResultTree} {ns : List ResultNode} :
      c ∈ t.children → Line c ns s → Line t (t.top :: ns) s

theorem Line.at {t s : ResultTree} {ns : List ResultNode} (h : t.Line ns s) :
    ∃ d, t.At d s := by
  induction h with
  | here t => exact ⟨0, .here t⟩
  | under hc _ ih =>
      obtain ⟨d, hd⟩ := ih
      exact ⟨d + 1, .under hc hd⟩

theorem At.line {t s : ResultTree} {d : Nat} (h : t.At d s) : ∃ ns, t.Line ns s := by
  induction h with
  | here t => exact ⟨_, .here t⟩
  | under hc _ ih =>
      obtain ⟨ns, hns⟩ := ih
      exact ⟨_, .under hc hns⟩

theorem Line.top_mem {t s : ResultTree} {ns : List ResultNode} (h : t.Line ns s) :
    t.top ∈ ns := by
  cases h with
  | here => exact List.mem_cons_self
  | under => exact List.mem_cons_self

theorem Line.mem_preorder {t s : ResultTree} {ns : List ResultNode} (h : t.Line ns s)
    {n : ResultNode} (hn : n ∈ ns) : n ∈ t.preorder := by
  rw [preorder_eq]
  induction h with
  | here t =>
      obtain rfl := List.mem_singleton.mp hn
      exact List.mem_cons_self
  | @under t c s ns hc _ ih =>
      rcases List.mem_cons.mp hn with rfl | hn
      · exact List.mem_cons_self
      · rw [← preorder_eq] at ih
        exact List.mem_cons_of_mem _ (mem_preorderAll.mpr ⟨c, hc, ih hn⟩)

/-- Where no vertex stands twice, the vertex at the top does not come again on a line. -/
theorem Line.ne_top {t s : ResultTree} {ns : List ResultNode} (h : t.Line ns s)
    (honce : t.ids.Nodup) {n : ResultNode} (hn : n ∈ ns.tail) : n.vertex ≠ t.top.vertex := by
  cases h with
  | here => cases hn
  | @under _ c _ ns hc hline =>
      intro he
      refine (once_child honce hc).2 (List.mem_map.mpr ⟨n, hline.mem_preorder hn, ?_⟩)
      rw [he]

end ResultTree

open ResultTree

/-! ## The way back -/

namespace Climb

variable {q : Climb} {g : Graph}

/-- Every child of a tree is a hop below its parent, so that a climb goes back from it. -/
def LedBack (q : Climb) (g : Graph) (t : ResultTree) : Prop :=
  ∀ {d s}, t.At d s → ∀ c ∈ s.children,
    g.vertices.get? s.top.vertex.id = some s.top.vertex ∧
      g.Hops q.tag q.direction c.top.vertex.id s.top.vertex.id

theorem LedBack.child {t c : ResultTree} (h : LedBack q g t) (hc : c ∈ t.children) :
    LedBack q g c := fun hs => h (.under hc hs)

/-- A climb goes from a child to its parent, unless the child is of the top type. -/
theorem LedBack.onward {t c : ResultTree} (h : LedBack q g t) (hc : c ∈ t.children)
    (htype : c.top.vertex.nodeType ≠ q.top) : q.Onward g c.top.vertex t.top.vertex := by
  obtain ⟨hstored, hhops⟩ := h (.here t) c hc
  exact ⟨htype, hstored, hhops⟩

/-- Up a line without a vertex of the top type below its first, a climb reaches the first. -/
theorem LedBack.reaches {t s : ResultTree} {ns : List ResultNode} (h : LedBack q g t)
    (hline : t.Line ns s) (hfree : ∀ n ∈ ns.tail, n.vertex.nodeType ≠ q.top) :
    q.Reaches g s.top.vertex t.top.vertex := by
  induction hline with
  | here t => exact .refl
  | @under t c s ns hc hline ih =>
      -- the line of the child begins with the child
      have hns : ∃ rest, ns = c.top :: rest := by cases hline <;> exact ⟨_, rfl⟩
      obtain ⟨rest, rfl⟩ := hns
      have hbelow := ih (h.child hc) fun n hn => hfree n (List.mem_cons_of_mem _ hn)
      exact hbelow.tail (h.onward hc (hfree c.top List.mem_cons_self))

/-- Up any line a climb comes to a vertex of the top type, when the line has one. -/
theorem LedBack.reaches_top {t s : ResultTree} {ns : List ResultNode} (h : LedBack q g t)
    (hline : t.Line ns s) {n : ResultNode} (hn : n ∈ ns) (htype : n.vertex.nodeType = q.top) :
    ∃ m ∈ ns, m.vertex.nodeType = q.top ∧ q.Reaches g s.top.vertex m.vertex := by
  induction hline generalizing n with
  | here t =>
      obtain rfl := List.mem_singleton.mp hn
      exact ⟨_, hn, htype, .refl⟩
  | @under t c s ns hc hline ih =>
      by_cases hbelow : ∃ m ∈ ns, m.vertex.nodeType = q.top
      · obtain ⟨m, hm, hmtype⟩ := hbelow
        obtain ⟨m', hm', htop, hreach⟩ := ih (h.child hc) hm hmtype
        exact ⟨m', List.mem_cons_of_mem _ hm', htop, hreach⟩
      · -- nothing stands in the way to the first node of the line
        rcases List.mem_cons.mp hn with rfl | hn
        · refine ⟨_, List.mem_cons_self, htype, h.reaches (.under hc hline) fun m hm hmtype => ?_⟩
          exact hbelow ⟨m, hm, hmtype⟩
        · exact absurd ⟨n, hn, htype⟩ hbelow

end Climb

/-- What is gathered below a stored vertex without trimming or pruning leads back to it. -/
theorem ledBack_of_collectTagged {g : Graph} (wf : g.WellFormed) {p : Vertex}
    (hp : g.vertices.get? p.id = some p) {o : CollectOptions} {t : ResultTree}
    (h : collectTagged g p o = .ok t) {q : Climb} (htag : q.tag = o.tag)
    (hdir : q.direction = o.direction.opposite) :
    t.top.vertex = p ∧ t.ids.Nodup ∧ Climb.LedBack q g t ∧
      ∀ {d s}, t.At d s → g.vertices.get? s.top.vertex.id = some s.top.vertex := by
  obtain ⟨⟨t, met⟩, hgather, h⟩ := Outcome.bind_eq_ok.mp h
  cases h
  have hbuilds := CollectOptions.builds_gather wf List.not_mem_nil hgather
  have hgrown := hbuilds.grown
  have hstored : ∀ {d s}, t.At d s → g.vertices.get? s.top.vertex.id = some s.top.vertex := by
    intro d s hs
    cases d with
    | zero =>
        cases hs
        rwa [hbuilds.vertex]
    | succ d => exact hgrown.stored hs
  have honce : t.ids.Nodup := by simpa using hbuilds.adds.once
  refine ⟨hbuilds.vertex, honce, fun {d s} hs c hc => ⟨hstored hs, ?_⟩, hstored⟩
  rw [htag, hdir]
  exact Graph.hops_opposite.mpr (hgrown.child hs c hc).1.hops

/-- **What is gathered leads back.** Let a collection below a vertex of a reachable
graph, without trimming or pruning, yield a tree, and let a search in the opposite
direction for vertices of its type start from a vertex of the tree, among others. If
the search succeeds it finds something; and it finds the vertex itself when no other
vertex on the line to the start is of its type. -/
theorem findTops_of_gathered {g : Graph} (hg : g.Reachable) {p : Vertex}
    (hp : g.vertices.get? p.id = some p) {tag : String} {d : Direction} {levels : Nat}
    {t : ResultTree} (ht : collectTagged g p ⟨tag, d, levels, [], none⟩ = .ok t)
    {n : ResultNode} (hn : n ∈ t.preorder) {f : StartFilter} {starts : List Vertex}
    (hstarts : f.starts g = .ok starts) (hstart : n.vertex ∈ starts) {maxLevels : Nat}
    {tops : List Vertex}
    (htops : findTops g f ⟨p.nodeType, tag, d.opposite, maxLevels⟩ = .ok tops) :
    tops ≠ [] ∧ ∀ {ns s}, t.Line ns s → s.top = n →
      (∀ m ∈ ns, m.vertex ≠ p → m.vertex.nodeType ≠ p.nodeType) → p ∈ tops := by
  have wf := hg.wellFormed
  obtain ⟨starts', found, hstarts', rfl, hfound⟩ := findTops_eq_ok wf htops
  rw [hstarts] at hstarts'
  cases hstarts'
  obtain ⟨rfl, honce, hled, hstored⟩ := @ledBack_of_collectTagged g wf p hp _ t ht
    ⟨p.nodeType, tag, d.opposite, maxLevels⟩ rfl rfl
  -- what a climb from the start reaches is found when it is of the type
  have hmem : ∀ {u : Vertex}, g.vertices.get? u.id = some u →
      u.nodeType = t.top.vertex.nodeType →
      Climb.Reaches ⟨t.top.vertex.nodeType, tag, d.opposite, maxLevels⟩ g n.vertex u →
      u ∈ found.values := fun hu htype hreach =>
    Table.mem_values.mpr ⟨_, hfound.mpr ⟨hu, htype, n.vertex, hstart, hreach⟩⟩
  refine ⟨?_, fun {ns s} hline hs hfree => ?_⟩
  · obtain ⟨depth, s, hs, rfl⟩ := at_of_mem_preorder hn
    obtain ⟨ns, hline⟩ := hs.line
    obtain ⟨m, -, htype, hreach⟩ := hled.reaches_top hline hline.top_mem rfl
    exact List.ne_nil_of_mem (hmem (hreach.stored (hstored hs)) htype hreach)
  · subst hs
    exact hmem hp rfl (hled.reaches hline fun m hm =>
      hfree m (List.mem_of_mem_tail hm) (hline.ne_top honce hm))

/-! ### The rack above two guests -/

namespace Search

def rack : Vertex := ⟨"rack", "rack", ∅⟩

def guest : Vertex := ⟨"v", "guest", ∅⟩

/-- The hosts and what is on them. -/
def belowRack : ResultTree :=
  .node ⟨rack, "rack", false, false, none, ∅, ∅⟩
    [.node ⟨⟨"h", "host", ∅⟩, "rack|host", false, false, none, ∅, ∅⟩
      [.node ⟨⟨"d", "disk", ∅⟩, "rack|host|disk", false, false, none, ∅, ∅⟩ [],
        .node ⟨guest, "rack|host|guest", false, false, none, ∅, ∅⟩ []],
      .node ⟨⟨"i", "host", ∅⟩, "rack|host", false, false, none, ∅, ∅⟩
        [.node ⟨⟨"w", "guest", ∅⟩, "rack|host|guest", false, false, none, ∅, ∅⟩ []]]

/-- The rack is found from the guests, over the hosts that they were gathered through. -/
theorem findTops_of_gathered_hosts :
    hosts.Reachable ∧ hosts.vertices.get? rack.id = some rack ∧
      collectTagged hosts rack ⟨"down", .outgoing, 2, [], none⟩ = .ok belowRack ∧
      ∃ n ns s starts tops, n ∈ belowRack.preorder ∧ n.vertex = guest ∧
        StartFilter.starts hosts ⟨"guest", []⟩ = .ok starts ∧ n.vertex ∈ starts ∧
        findTops hosts ⟨"guest", []⟩ ⟨"rack", "down", .incoming, 2⟩ = .ok tops ∧
        belowRack.Line ns s ∧ s.top = n ∧
        (∀ m ∈ ns, m.vertex ≠ rack → m.vertex.nodeType ≠ "rack") ∧ tops ≠ [] ∧ rack ∈ tops := by
  have hg : hosts.Reachable :=
    Graph.reachable_ofParts (show Graph.ofParts hostVertices hostEdges = .ok hosts from rfl)
  have hrack : hosts.vertices.get? rack.id = some rack := rfl
  have hrun : collectTagged hosts rack ⟨"down", .outgoing, 2, [], none⟩ = .ok belowRack := by rfl
  have hstarts : StartFilter.starts hosts ⟨"guest", []⟩ = .ok [guest, ⟨"w", "guest", ∅⟩] := by rfl
  have htops : findTops hosts ⟨"guest", []⟩ ⟨"rack", "down", .incoming, 2⟩ = .ok [rack] := by rfl
  have hline : ∃ ns s, belowRack.Line ns s ∧ s.top.vertex = guest ∧ s.top ∈ belowRack.preorder ∧
      ∀ m ∈ ns, m.vertex ≠ rack → m.vertex.nodeType ≠ "rack" := by
    -- the guest stands below the first host, after the disk
    refine ⟨_, _, .under List.mem_cons_self
      (.under (List.mem_cons_of_mem _ List.mem_cons_self) (.here _)), rfl, ?_, ?_⟩
    · decide
    · decide
  obtain ⟨ns, s, hline, hguest, hn, hfree⟩ := hline
  obtain ⟨hsome, hfound⟩ := findTops_of_gathered hg hrack hrun hn hstarts
    (hguest ▸ List.mem_cons_self) htops
  exact ⟨hg, hrack, hrun, s.top, ns, s, _, _, hn, hguest, hstarts, hguest ▸ List.mem_cons_self,
    htops, hline, rfl, hfree, hsome, hfound hline rfl hfree⟩

end Search

end Inventory
