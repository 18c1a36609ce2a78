import Mathlib.Logic.Relation
import Inventory.Proofs.Search.Hops

/-!
# Search — which top vertices are found

A climb goes over tagged hops and does not pass a vertex of the top type. From
each start vertex it meets every vertex that such a climb can reach, whatever
cycles the hops make, as what a vertex leads on to has been met when the call
for the vertex returns. A vertex that another start has met is met again, so
that the result holds the top vertices above all of the starts.
-/

namespace Inventory

/-! ## Climbs over a graph -/

namespace Climb

/-- A climb goes on from a vertex that is not of the top type, over one hop. -/
structure Onward (q : Climb) (g : Graph) (v w : Vertex) : Prop where
  passed : v.nodeType ≠ q.top
  stored : g.vertices.get? w.id = some w
  hops : g.Hops q.tag q.direction v.id w.id

/-- Hops lead from one vertex to another, with no vertex of the top type before
the last. -/
def Reaches (q : Climb) (g : Graph) : Vertex → Vertex → Prop :=
  Relation.ReflTransGen (q.Onward g)

variable {q : Climb} {g : Graph}

theorem Reaches.stored {v w : Vertex} (h : q.Reaches g v w)
    (hv : g.vertices.get? v.id = some v) : g.vertices.get? w.id = some w := by
  cases h with
  | refl => exact hv
  | tail _ hw => exact hw.stored

/-! ## What a climb adds -/

/-- The top vertices that were found are stored under their ids. -/
def Stored (g : Graph) (found : Table Vertex) : Prop :=
  ∀ {id w}, found.get? id = some w → g.vertices.get? id = some w

/-- What a part of a climb adds, when it may meet the vertices of `D`. -/
structure Adds (q : Climb) (g : Graph) (D : Vertex → Prop) (c c' : Climbed) : Prop where
  keeps : ∀ id ∈ c.visited, id ∈ c'.visited
  allowed : ∀ id ∈ c'.visited, id ∈ c.visited ∨ ∃ v, g.vertices.get? id = some v ∧ D v
  /-- What a newly met vertex leads on to has been met. -/
  closed : ∀ {v w}, g.vertices.get? v.id = some v → v.id ∈ c'.visited → v.id ∉ c.visited →
    q.Onward g v w → w.id ∈ c'.visited
  /-- The newly met vertices of the top type have been found. -/
  found : ∀ {id w}, c'.found.get? id = some w ↔ c.found.get? id = some w ∨
    (id ∈ c'.visited ∧ id ∉ c.visited) ∧ g.vertices.get? id = some w ∧ w.nodeType = q.top

variable {D : Vertex → Prop}

theorem Adds.refl (c : Climbed) : q.Adds g D c c where
  keeps _ h := h
  allowed _ h := .inl h
  closed _ h hn := absurd h hn
  found {id w} := by
    constructor
    · exact .inl
    · rintro (h | ⟨⟨h, hn⟩, -⟩)
      · exact h
      · exact absurd h hn

theorem Adds.trans {c c₁ c₂ : Climbed} (h : q.Adds g D c c₁) (h' : q.Adds g D c₁ c₂) :
    q.Adds g D c c₂ where
  keeps id hid := h'.keeps id (h.keeps id hid)
  allowed id hid := by
    rcases h'.allowed id hid with hid | hd
    · exact h.allowed id hid
    · exact .inr hd
  closed {v w} hv hmet hnew hw := by
    by_cases hfirst : v.id ∈ c₁.visited
    · exact h'.keeps _ (h.closed hv hfirst hnew hw)
    · exact h'.closed hv hmet hfirst hw
  found {id w} := by
    rw [h'.found, h.found]
    constructor
    · rintro ((hf | ⟨⟨hmet, hnew⟩, ht⟩) | ⟨⟨hmet, hnew⟩, ht⟩)
      · exact .inl hf
      · exact .inr ⟨⟨h'.keeps id hmet, hnew⟩, ht⟩
      · exact .inr ⟨⟨hmet, fun hc => hnew (h.keeps id hc)⟩, ht⟩
    · rintro (hf | ⟨⟨hmet, hnew⟩, ht⟩)
      · exact .inl (.inl hf)
      · by_cases hfirst : id ∈ c₁.visited
        · exact .inl (.inr ⟨⟨hfirst, hnew⟩, ht⟩)
        · exact .inr ⟨⟨hmet, hfirst⟩, ht⟩

/-- When nothing had been met before, all that a met vertex reaches has been met. -/
theorem Adds.met_of_reaches {found : Table Vertex} {c : Climbed} (h : q.Adds g D { found } c)
    {v w : Vertex} (hv : g.vertices.get? v.id = some v) (hmet : v.id ∈ c.visited)
    (hw : q.Reaches g v w) : w.id ∈ c.visited := by
  induction hw with
  | refl => exact hmet
  | tail hreach hw ih => exact h.closed (Reaches.stored hreach hv) ih List.not_mem_nil hw

theorem Adds.stored {c c' : Climbed} (h : q.Adds g D c c') (hc : Stored g c.found) :
    Stored g c'.found := by
  intro id w hf
  rcases h.found.mp hf with hf | ⟨-, hw, -⟩
  · exact hc hf
  · exact hw

/-! ### Single vertices -/

/-- A climb after it has met a vertex. -/
def met (c : Climbed) (id : VertexId) : Climbed := { c with visited := id :: c.visited }

/-- A vertex of the top type is found and not passed. -/
theorem adds_top {c : Climbed} {v : Vertex} (hv : g.vertices.get? v.id = some v) (hD : D v)
    (hnew : v.id ∉ c.visited) (hc : Stored g c.found) (htop : v.nodeType = q.top) :
    q.Adds g D c { met c v.id with found := c.found.put v.id v } where
  keeps _ h := List.mem_cons_of_mem _ h
  allowed id hid := by
    rcases List.mem_cons.mp hid with rfl | hid
    · exact .inr ⟨v, hv, hD⟩
    · exact .inl hid
  closed {v' w} hv' hmet hnew' hw := by
    rcases List.mem_cons.mp hmet with hid | hmet
    · obtain rfl : v' = v := Graph.eq_of_id_eq hv' hv hid
      exact absurd htop hw.passed
    · exact absurd hmet hnew'
  found {id w} := by
    rw [Table.get?_put]
    by_cases hid : id = v.id
    · subst hid
      rw [if_pos rfl]
      constructor
      · intro h
        cases h
        exact .inr ⟨⟨List.mem_cons_self, hnew⟩, hv, htop⟩
      · rintro (h | ⟨-, h, -⟩)
        · exact hv.symm.trans (hc h)
        · exact hv.symm.trans h
    · rw [if_neg hid]
      constructor
      · exact .inl
      · rintro (h | ⟨⟨hmet, hold⟩, -⟩)
        · exact h
        · rcases List.mem_cons.mp hmet with h | h
          · exact absurd h hid
          · exact absurd h hold

/-- A vertex of another type is passed, once all it leads on to has been met. -/
theorem Adds.pass {c c' : Climbed} {v : Vertex} (h : q.Adds g D (met c v.id) c')
    (hv : g.vertices.get? v.id = some v) (hD : D v) (hnew : v.id ∉ c.visited)
    (htype : v.nodeType ≠ q.top) (hall : ∀ {w}, q.Onward g v w → w.id ∈ c'.visited) :
    q.Adds g D c c' where
  keeps id hid := h.keeps id (List.mem_cons_of_mem _ hid)
  allowed id hid := by
    rcases h.allowed id hid with hid | hd
    · rcases List.mem_cons.mp hid with rfl | hid
      · exact .inr ⟨v, hv, hD⟩
      · exact .inl hid
    · exact .inr hd
  closed {v' w} hv' hmet hnew' hw := by
    by_cases hid : v'.id = v.id
    · obtain rfl : v' = v := Graph.eq_of_id_eq hv' hv hid
      exact hall hw
    · exact h.closed hv' hmet (List.not_mem_cons_of_ne_of_not_mem hid hnew') hw
  found {id w} := by
    rw [h.found]
    constructor
    · rintro (hf | ⟨⟨hmet, hold⟩, ht⟩)
      · exact .inl hf
      · exact .inr ⟨⟨hmet, fun hc => hold (List.mem_cons_of_mem _ hc)⟩, ht⟩
    · rintro (hf | ⟨⟨hmet, hold⟩, hw, ht⟩)
      · exact .inl hf
      · refine .inr ⟨⟨hmet, List.not_mem_cons_of_ne_of_not_mem ?_ hold⟩, hw, ht⟩
        -- a vertex that is passed is not of the top type
        rintro rfl
        obtain rfl : w = v := Option.some.inj (hw.symm.trans hv)
        exact htype ht

/-! ### Runs -/

/-- Calls for vertices one after another, each of them as a step lemma says. -/
theorem adds_foldlM {levels : Nat}
    (hstep : ∀ {v c c'}, g.vertices.get? v.id = some v → D v → Stored g c.found →
      climb g q levels v c = .ok c' → q.Adds g D c c' ∧ v.id ∈ c'.visited)
    {ws : List Vertex} (hws : ∀ w ∈ ws, g.vertices.get? w.id = some w ∧ D w) {c c' : Climbed}
    (hc : Stored g c.found)
    (h : ws.foldlM (fun c w => climb g q levels w c) c = .ok c') :
    q.Adds g D c c' ∧ ∀ w ∈ ws, w.id ∈ c'.visited := by
  induction ws generalizing c with
  | nil =>
      cases h
      exact ⟨.refl _, by simp⟩
  | cons w ws ih =>
      obtain ⟨⟨hw, hD⟩, hws⟩ := List.forall_mem_cons.mp hws
      obtain ⟨c₁, hfirst, h⟩ := Outcome.foldlM_cons_eq_ok.mp h
      obtain ⟨hadds, hmet⟩ := hstep hw hD hc hfirst
      obtain ⟨hadds', hmet'⟩ := ih hws (hadds.stored hc) h
      exact ⟨hadds.trans hadds', List.forall_mem_cons.mpr ⟨hadds'.keeps _ hmet, hmet'⟩⟩

/-- **The step lemma**: a call that returns has met its vertex, and has found
the top vertices among those it has met. -/
theorem adds_climb (wf : g.WellFormed) (hD : ∀ {v w}, D v → q.Onward g v w → D w) {levels : Nat}
    {v : Vertex} {c c' : Climbed} (hv : g.vertices.get? v.id = some v) (hDv : D v)
    (hc : Stored g c.found) (h : climb g q levels v c = .ok c') :
    q.Adds g D c c' ∧ v.id ∈ c'.visited := by
  induction levels generalizing v c c' with
  | zero => cases h
  | succ levels ih =>
      rw [climb] at h
      split at h
      · next hmet =>
          cases h
          exact ⟨.refl c, hmet⟩
      · next hnew =>
          split at h
          · next htop =>
              cases h
              exact ⟨adds_top hv hDv hnew hc htop, List.mem_cons_self⟩
          · next htype =>
              obtain ⟨ws, hws, h⟩ := Outcome.bind_eq_ok.mp h
              have hmem := wf.mem_taggedNeighbours hws
              have honward : ∀ w ∈ ws, q.Onward g v w := by
                intro w hw
                obtain ⟨hstored, hhops⟩ := (hmem w).mp hw
                exact ⟨htype, hstored, hhops⟩
              obtain ⟨hadds, hall⟩ := adds_foldlM (c := met c v.id) ih
                (fun w hw => ⟨(honward w hw).stored, hD hDv (honward w hw)⟩) hc h
              refine ⟨hadds.pass hv hDv hnew htype fun hw => ?_,
                hadds.keeps _ List.mem_cons_self⟩
              exact hall _ ((hmem _).mpr ⟨hw.stored, hw.hops⟩)

/-- A climb from a start vertex, with nothing met, finds the top vertices that
the start reaches besides those found before. -/
theorem found_climb (wf : g.WellFormed) {levels : Nat} {v : Vertex}
    (hv : g.vertices.get? v.id = some v) {found : Table Vertex} (hfound : Stored g found)
    {c : Climbed} (h : climb g q levels v { found } = .ok c) {id : VertexId} {w : Vertex} :
    c.found.get? id = some w ↔ found.get? id = some w ∨
      g.vertices.get? id = some w ∧ w.nodeType = q.top ∧ q.Reaches g v w := by
  obtain ⟨hadds, hmet⟩ := adds_climb (D := q.Reaches g v) wf
    (fun hreach hw => hreach.tail hw) hv .refl hfound h
  rw [hadds.found]
  constructor
  · rintro (hf | ⟨⟨hmet, -⟩, hw, htop⟩)
    · exact .inl hf
    · rcases hadds.allowed id hmet with hnone | ⟨w', hw', hreach⟩
      · cases hnone
      · obtain rfl : w = w' := Option.some.inj (hw.symm.trans hw')
        exact .inr ⟨hw, htop, hreach⟩
  · rintro (hf | ⟨hw, htop, hreach⟩)
    · exact .inl hf
    · have hid := wf.vertex_id hw
      exact .inr ⟨⟨hid ▸ hadds.met_of_reaches hv hmet hreach, List.not_mem_nil⟩, hw, htop⟩

/-! ## Searches -/

/-- The top vertices found from start vertices one after another. -/
theorem found_foldlM (wf : g.WellFormed) {levels : Nat} {starts : List Vertex}
    (hstarts : ∀ v ∈ starts, g.vertices.get? v.id = some v) {found found' : Table Vertex}
    (hfound : Stored g found)
    (h : starts.foldlM (fun found v => do
      let c ← climb g q levels v { found }
      .ok c.found) found = .ok found') {id : VertexId} {w : Vertex} :
    found'.get? id = some w ↔ found.get? id = some w ∨
      g.vertices.get? id = some w ∧ w.nodeType = q.top ∧ ∃ v ∈ starts, q.Reaches g v w := by
  induction starts generalizing found with
  | nil =>
      cases h
      simp
  | cons v starts ih =>
      obtain ⟨hv, hstarts⟩ := List.forall_mem_cons.mp hstarts
      obtain ⟨_, hfirst, h⟩ := Outcome.foldlM_cons_eq_ok.mp h
      obtain ⟨c, hclimb, heq⟩ := Outcome.bind_eq_ok.mp hfirst
      cases heq
      have hone := @found_climb _ _ wf _ _ hv _ hfound _ hclimb
      have hstored : Stored g c.found := by
        intro id w hf
        rcases hone.mp hf with hf | ⟨hw, -⟩
        · exact hfound hf
        · exact hw
      rw [ih hstarts hstored h, hone, or_assoc]
      simp only [List.mem_cons, exists_eq_or_imp, ← and_or_left]

end Climb

theorem StartFilter.stored_of_starts {g : Graph} (wf : g.WellFormed) {f : StartFilter}
    {starts : List Vertex} (h : f.starts g = .ok starts) {v : Vertex} (hv : v ∈ starts) :
    g.vertices.get? v.id = some v := by
  unfold StartFilter.starts at h
  split at h
  · next vs hfind =>
      cases h
      obtain ⟨ps, -, rfl⟩ := List.mem_map.mp (List.mem_of_find?_eq_some hfind)
      obtain ⟨id, hid⟩ := Table.mem_values.mp (List.mem_filter.mp hv).1
      rw [wf.vertex_id hid]
      exact hid
  · cases h

/-- What a search that succeeds has found: the values of the table of the top vertices
that its start vertices reach. -/
theorem findTops_eq_ok {g : Graph} (wf : g.WellFormed) {f : StartFilter} {q : Climb}
    {tops : List Vertex} (h : findTops g f q = .ok tops) :
    ∃ (starts : List Vertex) (found : Table Vertex), f.starts g = .ok starts ∧ tops = found.values ∧
      ∀ {id w}, found.get? id = some w ↔ g.vertices.get? id = some w ∧ w.nodeType = q.top ∧
        ∃ v ∈ starts, q.Reaches g v w := by
  obtain ⟨starts, hstarts, h⟩ := Outcome.bind_eq_ok.mp h
  obtain ⟨found, hfound, h⟩ := Outcome.bind_eq_ok.mp h
  cases h
  have hnothing : Climb.Stored g ∅ := fun hf => by cases hf
  refine ⟨starts, found, hstarts, rfl, fun {id w} => ?_⟩
  rw [Climb.found_foldlM wf (fun v => StartFilter.stored_of_starts wf hstarts) hnothing hfound]
  exact or_iff_right fun hf => by cases hf

/-- **Which top vertices are found.** A search that succeeds lists, by rising id
and each once, exactly the vertices of the top type that some start vertex
reaches without passing another vertex of that type. -/
theorem mem_findTops_iff {g : Graph} (hg : g.Reachable) {f : StartFilter} {q : Climb}
    {tops : List Vertex} (h : findTops g f q = .ok tops) :
    tops.Pairwise (fun v w => v.id < w.id) ∧ ∃ starts, f.starts g = .ok starts ∧
      ∀ w, w ∈ tops ↔ g.vertices.get? w.id = some w ∧ w.nodeType = q.top ∧
        ∃ v ∈ starts, q.Reaches g v w := by
  have wf := hg.wellFormed
  obtain ⟨starts, found, hstarts, rfl, hmem⟩ := findTops_eq_ok wf h
  have hid : ∀ {id w}, found.get? id = some w → w.id = id :=
    fun hf => wf.vertex_id (hmem.mp hf).1
  refine ⟨Table.values_rising hid, starts, hstarts, fun w => ?_⟩
  rw [Table.mem_values]
  constructor
  · rintro ⟨id, hf⟩
    obtain rfl : w.id = id := hid hf
    exact hmem.mp hf
  · intro hw
    exact ⟨w.id, hmem.mpr hw⟩

/-! ### A site behind a site -/

namespace Search

def siteVertices : List Vertex :=
  [⟨"app", "app", ∅⟩, ⟨"m", "node", ∅⟩, ⟨"n", "node", ∅⟩, ⟨"s", "site", ∅⟩, ⟨"t", "site", ∅⟩]

def siteEdges : List Edge :=
  [Edge.withTag ⟨"1", "app", "m", "runs-on", ∅⟩ "up", Edge.withTag ⟨"2", "m", "n", "link", ∅⟩ "up",
    Edge.withTag ⟨"3", "n", "m", "link", ∅⟩ "up", Edge.withTag ⟨"4", "s", "n", "holds", ∅⟩ "up-REV",
    Edge.withTag ⟨"5", "s", "t", "in", ∅⟩ "up"]

/-- Two nodes in a ring below a site, which is in another site. -/
def sites : Graph := (Graph.ofParts siteVertices siteEdges).toOption.getD .empty

/-- The sites above. -/
def toSites : Climb := { top := "site", tag := "up", direction := .outgoing, maxLevels := 3 }

/-- The inner site is found, over an edge that is tagged against its direction;
the outer one is behind it. -/
theorem mem_findTops_iff_sites :
    sites.Reachable ∧ findTops sites ⟨"app", []⟩ toSites = .ok [⟨"s", "site", ∅⟩] ∧
      [(⟨"s", "site", ∅⟩ : Vertex)].Pairwise (fun v w => v.id < w.id) ∧
      ∃ starts, StartFilter.starts sites ⟨"app", []⟩ = .ok starts ∧
        ∀ w : Vertex, w ∈ [⟨"s", "site", ∅⟩] ↔ sites.vertices.get? w.id = some w ∧
          w.nodeType = toSites.top ∧ ∃ v ∈ starts, toSites.Reaches sites v w := by
  have hg : sites.Reachable :=
    Graph.reachable_ofParts (show Graph.ofParts siteVertices siteEdges = .ok sites from rfl)
  have hrun : findTops sites ⟨"app", []⟩ toSites = .ok [⟨"s", "site", ∅⟩] := by rfl
  exact ⟨hg, hrun, mem_findTops_iff hg hrun⟩

end Search

end Inventory
