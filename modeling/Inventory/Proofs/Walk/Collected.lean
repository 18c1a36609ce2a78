import Inventory.Walk.Collector
import Inventory.Proofs.Graph.Reachable
import Inventory.Proofs.ResultTree
import Inventory.Proofs.Topology.Ordered
import Inventory.Proofs.Trail

/-!
# Walk — what a walk collects

Whatever the graph looks like, a walk that succeeds builds a tree in which no
vertex stands twice, every child is a neighbour that fits a next step of its
parent's trail, and every neighbour that fits a next step of an expanded node
stands somewhere. The collector's visited vertices are the invariant: they are
exactly the ids of the trees built so far.
-/

namespace Inventory

/-! ## Hooks -/

namespace Hook

variable {σ : Type}

/-- The hook leaves every node at its vertex and trail. -/
def Keeps (hook : Hook σ) : Prop :=
  ∀ {g n s k n' s'}, hook g n s = (.ok (k, n'), s') → n'.vertex = n.vertex ∧ n'.trail = n.trail

/-- The hook lets the walk go on below every node. -/
def Expands (hook : Hook σ) : Prop :=
  ∀ {g n s k n' s'}, hook g n s = (.ok (k, n'), s') → k = .expand

/-- The hook keeps no node as a leaf: the walk goes on below every node that is kept. -/
def Opens (hook : Hook σ) : Prop :=
  ∀ {g n s k n' s'}, hook g n s = (.ok (k, n'), s') → k ≠ .leaf

theorem Expands.opens {hook : Hook σ} (h : hook.Expands) : hook.Opens := by
  intro g n s k n' s' hrun
  rw [h hrun]
  exact Visit.noConfusion

theorem keeps_decorate {f : ResultNode → ResultNode}
    (hf : ∀ n, (f n).vertex = n.vertex ∧ (f n).trail = n.trail) : (decorate f).Keeps := by
  intro g n s k n' s' h
  cases h
  exact hf n

theorem expands_decorate (f : ResultNode → ResultNode) : (decorate f).Expands := by
  intro g n s k n' s' h
  cases h
  rfl

end Hook

/-! ## One walk after another -/

/-- A walk and what follows it when it succeeds. -/
def followed {σ : Type} (first : Outcome (Option ResultTree) × Collector σ)
    (rest : Collector σ → Outcome (List ResultTree) × Collector σ) :
    Outcome (List ResultTree) × Collector σ :=
  match first with
  | (.error e, c) => (.error e, c)
  | (.ok found, c) =>
    match rest c with
    | (.error e, c) => (.error e, c)
    | (.ok trees, c) => (.ok (found.toList ++ trees), c)

theorem followed_ok {σ : Type} (found : Option ResultTree) (c : Collector σ)
    (rest : Collector σ → Outcome (List ResultTree) × Collector σ) :
    followed (.ok found, c) rest = ((rest c).1.map (found.toList ++ ·), (rest c).2) := by
  unfold followed
  dsimp only
  cases rest c with
  | mk r c' => cases r <;> rfl

/-- Both succeed, and the tree of the walk comes before those of the rest. -/
theorem followed_eq_ok {σ : Type} {first : Outcome (Option ResultTree) × Collector σ}
    {rest : Collector σ → Outcome (List ResultTree) × Collector σ} {ts : List ResultTree}
    {c : Collector σ} (h : followed first rest = (.ok ts, c)) :
    ∃ found c' us, first = (.ok found, c') ∧ rest c' = (.ok us, c) ∧ ts = found.toList ++ us := by
  obtain ⟨r, c'⟩ := first
  cases r with
  | error e => cases h
  | ok found =>
      rw [followed_ok] at h
      cases hrest : rest c' with
      | mk r c₁ =>
          rw [hrest] at h
          cases r with
          | error e => cases h
          | ok us => cases h; exact ⟨found, c', us, rfl, hrest, rfl⟩

/-- What fails is the walk itself, or what follows it. -/
theorem followed_eq_error {σ : Type} {first : Outcome (Option ResultTree) × Collector σ}
    {rest : Collector σ → Outcome (List ResultTree) × Collector σ} {e : Error} {c : Collector σ}
    (h : followed first rest = (.error e, c)) :
    first = (.error e, c) ∨ ∃ c', rest c' = (.error e, c) := by
  obtain ⟨r, c'⟩ := first
  cases r with
  | error e' => cases h; exact .inl rfl
  | ok found =>
      rw [followed_ok] at h
      apply Or.inr
      cases hrest : rest c' with
      | mk r c₁ =>
          rw [hrest] at h
          cases r with
          | error e' => cases h; exact ⟨c', hrest⟩
          | ok trees => cases h

theorem collectMoves_cons {σ : Type}
    (visit : Vertex → Trail → Collector σ → Outcome (Option ResultTree) × Collector σ)
    (trail : Trail) (step : TrailStep) (w : Vertex) (ms : List (TrailStep × Vertex))
    (c : Collector σ) :
    collectMoves visit trail ((step, w) :: ms) c =
      if w.id ∈ c.visited then collectMoves visit trail ms c
      else followed (visit w (trail.extend step) { c with visited := w.id :: c.visited })
        (collectMoves visit trail ms) := rfl

theorem collectAll_cons {σ : Type} (g : Graph) (ctx : Context) (topology : Topology)
    (hook : Hook σ) (root : Vertex) (roots : List Vertex) (c : Collector σ) :
    collectAll g ctx topology hook (root :: roots) c =
      followed (collectFrom g ctx topology hook root c) (collectAll g ctx topology hook roots) :=
  rfl

/-! ## Nodes -/

/-- A node over its children: each is a neighbour that fits a next step and
stands at the trail of that step. Below the root, a node that fits the root
step has none. -/
structure Walked (g : Graph) (topology : Topology) (inner : Prop) (s : ResultTree) : Prop where
  child : ∀ c ∈ s.children, g.vertices.get? c.top.vertex.id = some c.top.vertex ∧
    g.Adjacent s.top.vertex.id c.top.vertex.id ∧
    ∃ step ∈ topology.stepsAt s.top.trail, step.fits c.top.vertex = true ∧
      c.top.trail = s.top.trail ++ "|" ++ step.render
  nested : inner → topology.root.fits s.top.vertex = true → s.children = []

/-- Every neighbour of an expanded node that fits a next step is among the seen. -/
def Complete (g : Graph) (topology : Topology) (inner : Prop) (seen : List VertexId)
    (s : ResultTree) : Prop :=
  ¬ (inner ∧ topology.root.fits s.top.vertex = true) → ∀ step ∈ topology.stepsAt s.top.trail, ∀ w,
    g.vertices.get? w.id = some w → g.Adjacent s.top.vertex.id w.id → step.fits w = true →
      w.id ∈ seen

/-! ## Parts of a walk -/

section

variable {σ : Type} {hook : Hook σ} {limit : Nat}

/-- What a part of a walk adds to a collector: trees of vertices that were not
met before. -/
structure Gathers (hook : Hook σ) (limit : Nat) (c c' : Collector σ) (ts : List ResultTree) :
    Prop where
  once : (ResultTree.idsAll ts).Nodup
  fresh : ∀ id ∈ ResultTree.idsAll ts, id ∉ c.visited ∧ id ∈ c'.visited
  keeps : ∀ id ∈ c.visited, id ∈ c'.visited
  only : hook.Expands → ∀ id ∈ c'.visited, id ∈ c.visited ∨ id ∈ ResultTree.idsAll ts
  counts : c.count + ResultTree.sizeAll ts ≤ c'.count
  within : c.count ≤ limit → c'.count ≤ limit

theorem Gathers.nothing (c : Collector σ) : Gathers hook limit c c [] where
  once := List.nodup_nil
  fresh := by simp
  keeps _ h := h
  only _ _ h := .inl h
  counts := Nat.le_refl _
  within h := h

theorem Gathers.append {c c₁ c₂ : Collector σ} {found : Option ResultTree}
    {ts : List ResultTree} (h : Gathers hook limit c c₁ found.toList)
    (h' : Gathers hook limit c₁ c₂ ts) : Gathers hook limit c c₂ (found.toList ++ ts) := by
  have hids : ResultTree.idsAll (found.toList ++ ts) =
      ResultTree.idsAll found.toList ++ ResultTree.idsAll ts := by
    cases found <;> simp
  have hsize : ResultTree.sizeAll (found.toList ++ ts) =
      ResultTree.sizeAll found.toList + ResultTree.sizeAll ts := by
    cases found <;> simp
  refine ⟨?_, ?_, fun id hid => h'.keeps id (h.keeps id hid), fun he id hid => ?_, ?_,
    fun hc => h'.within (h.within hc)⟩
  · -- what the first part has met is visited when the second begins
    rw [hids]
    exact List.nodup_append.mpr ⟨h.once, h'.once, fun a ha b hb hab =>
      (h'.fresh b hb).1 (hab ▸ (h.fresh a ha).2)⟩
  · rw [hids]
    intro id hid
    rcases List.mem_append.mp hid with hid | hid
    · exact ⟨(h.fresh id hid).1, h'.keeps id (h.fresh id hid).2⟩
    · exact ⟨fun hc => (h'.fresh id hid).1 (h.keeps id hc), (h'.fresh id hid).2⟩
  · rw [hids, List.mem_append]
    rcases h'.only he id hid with hid | hid
    · exact (h.only he id hid).imp_right .inl
    · exact .inr (.inr hid)
  · have := h.counts
    have := h'.counts
    omega

/-- What holds of a tree that is built with so many levels left. -/
structure Grows (g : Graph) (topology : Topology) (hook : Hook σ) (levels : Nat)
    (seen : List VertexId) (inner : Prop) (t : ResultTree) : Prop where
  deep : ∀ {d s}, t.At d s → d < levels
  walked : ∀ {d s}, t.At d s → Walked g topology (inner ∨ 0 < d) s
  complete : hook.Opens → ∀ {d s}, t.At d s → Complete g topology (inner ∨ 0 < d) seen s

variable {g : Graph} {topology : Topology} {levels : Nat} {inner : Prop}

theorem Grows.mono {seen seen' : List VertexId} {t : ResultTree}
    (h : Grows g topology hook levels seen inner t) (hs : ∀ id ∈ seen, id ∈ seen') :
    Grows g topology hook levels seen' inner t where
  deep := h.deep
  walked := h.walked
  complete ho _ _ ht hn step hstep w hw ha hf := hs _ (h.complete ho ht hn step hstep w hw ha hf)

/-- A tree grows by a top over grown children. -/
theorem Grows.node {seen : List VertexId} {n : ResultNode} {cs : List ResultTree}
    (htop : Walked g topology inner (.node n cs))
    (hcomplete : hook.Opens → Complete g topology inner seen (.node n cs))
    (hcs : ∀ c ∈ cs, Grows g topology hook levels seen True c) :
    Grows g topology hook (levels + 1) seen inner (.node n cs) := by
  -- a subtree is the tree itself or stands in a child, one level deeper
  have htop_iff : (inner ∨ 0 < 0) ↔ inner := by simp
  have hbelow_iff : ∀ d, (inner ∨ 0 < d + 1) ↔ (True ∨ 0 < d) := by simp
  refine ⟨fun ht => ?_, fun ht => ?_, fun ho _ _ ht => ?_⟩
  · cases ht with
    | here => omega
    | under hc ht => exact Nat.succ_lt_succ ((hcs _ hc).deep ht)
  · cases ht with
    | here => rwa [htop_iff]
    | under hc ht => rw [hbelow_iff]; exact (hcs _ hc).walked ht
  · cases ht with
    | here => rw [htop_iff]; exact hcomplete ho
    | under hc ht => rw [hbelow_iff]; exact (hcs _ hc).complete ho ht

/-! ## Moves -/

theorem mem_moves {steps : List TrailStep} {ns : List Vertex} {s : TrailStep} {w : Vertex} :
    (s, w) ∈ moves steps ns ↔ s ∈ steps ∧ w ∈ ns ∧ s.fits w = true := by
  simp [moves]

/-- What a visit of a vertex does to the collector that has just met it, and
what it builds. -/
def Visits (g : Graph) (topology : Topology) (hook : Hook σ) (limit levels : Nat)
    (visit : Vertex → Trail → Collector σ → Outcome (Option ResultTree) × Collector σ) : Prop :=
  ∀ {v trail c c' found}, g.vertices.get? v.id = some v → v.id ∉ c.visited →
    visit v trail { c with visited := v.id :: c.visited } = (.ok found, c') →
    Gathers hook limit c c' found.toList ∧ v.id ∈ c'.visited ∧
      ∀ t ∈ found, t.top.vertex = v ∧ t.top.trail = trail.key ∧
        Grows g topology hook levels c'.visited (trail.below ≠ []) t

/-- The moves of a node are all made, and add up. -/
theorem collectMoves_spec
    {visit : Vertex → Trail → Collector σ → Outcome (Option ResultTree) × Collector σ}
    (hvisit : Visits g topology hook limit levels visit) {trail : Trail}
    {ms : List (TrailStep × Vertex)} {c c' : Collector σ} {ts : List ResultTree}
    (hms : ∀ m ∈ ms, g.vertices.get? m.2.id = some m.2)
    (h : collectMoves visit trail ms c = (.ok ts, c')) :
    Gathers hook limit c c' ts ∧ (∀ m ∈ ms, m.2.id ∈ c'.visited) ∧
      ∀ t ∈ ts, Grows g topology hook levels c'.visited True t ∧
        ∃ m ∈ ms, t.top.vertex = m.2 ∧ t.top.trail = (trail.extend m.1).key := by
  induction ms generalizing c ts with
  | nil => cases h; exact ⟨.nothing _, by simp, by simp⟩
  | cons m ms ih =>
      obtain ⟨step, w⟩ := m
      have hrest : ∀ m ∈ ms, g.vertices.get? m.2.id = some m.2 :=
        fun m hm => hms m (List.mem_cons_of_mem _ hm)
      rw [collectMoves_cons] at h
      split at h
      -- a vertex met before is passed by, and counts as met
      · next hmet =>
          obtain ⟨hg, hmoved, hts⟩ := ih hrest h
          refine ⟨hg, ?_, fun t ht => ?_⟩
          · rw [List.forall_mem_cons]
            exact ⟨hg.keeps _ hmet, hmoved⟩
          · obtain ⟨hgrow, m, hm, htop⟩ := hts t ht
            exact ⟨hgrow, m, List.mem_cons_of_mem _ hm, htop⟩
      · next hnew =>
          obtain ⟨found, c₁, trees, hv, hr, rfl⟩ := followed_eq_ok h
          obtain ⟨hg₁, hmet, hfound⟩ := hvisit (hms (step, w) (by simp)) hnew hv
          obtain ⟨hg₂, hmoved, hts⟩ := ih hrest hr
          refine ⟨hg₁.append hg₂, ?_, fun t ht => ?_⟩
          · rw [List.forall_mem_cons]
            exact ⟨hg₂.keeps _ hmet, hmoved⟩
          · rcases List.mem_append.mp ht with ht | ht
            · obtain ⟨htop, htrail, hgrow⟩ := hfound t (by simpa using ht)
              -- below a step the trail is never at its root
              rw [eq_true (Trail.extend_below_ne_nil trail step)] at hgrow
              exact ⟨hgrow.mono hg₂.keeps, (step, w), by simp, htop, htrail⟩
            · obtain ⟨hgrow, m, hm, htop⟩ := hts t ht
              exact ⟨hgrow, m, List.mem_cons_of_mem _ hm, htop⟩

/-! ## The walk -/

/-- A node has been counted and shown to the hook. -/
def Collector.counted (c : Collector σ) (s : σ) : Collector σ :=
  { c with count := c.count + 1, hook := s }

/-- The trees under a node, gathered after it, are gathered with it. -/
theorem Gathers.node {c c' : Collector σ} {s : σ} {n : ResultNode} {cs : List ResultTree}
    (hnew : n.vertex.id ∉ c.visited) (hcount : c.count + 1 ≤ limit)
    (h : Gathers hook limit
      (Collector.counted { c with visited := n.vertex.id :: c.visited } s) c' cs) :
    Gathers hook limit c c' [.node n cs] := by
  have hids : ResultTree.idsAll [.node n cs] = n.vertex.id :: ResultTree.idsAll cs := by
    simp [ResultTree.ids_node]
  have hfresh : ∀ id ∈ ResultTree.idsAll cs, id ≠ n.vertex.id ∧ id ∉ c.visited := by
    intro id hid
    have := (h.fresh id hid).1
    exact ⟨fun he => this (by simp [Collector.counted, he]),
      fun hc => this (by simp [Collector.counted, hc])⟩
  refine ⟨?_, ?_, fun id hid => ?_, fun he id hid => ?_, ?_, fun _ => h.within hcount⟩
  · rw [hids]
    exact List.nodup_cons.mpr ⟨fun hid => (hfresh _ hid).1 rfl, h.once⟩
  · rw [hids, List.forall_mem_cons]
    exact ⟨⟨hnew, h.keeps _ List.mem_cons_self⟩,
      fun id hid => ⟨(hfresh id hid).2, (h.fresh id hid).2⟩⟩
  · exact h.keeps id (List.mem_cons_of_mem _ hid)
  · rw [hids, List.mem_cons]
    rcases h.only he id hid with hid | hid
    · rcases List.mem_cons.mp hid with hid | hid
      · exact .inr (.inl hid)
      · exact .inl hid
    · exact .inr (.inr hid)
  · have := h.counts
    simp only [Collector.counted] at this
    simp only [ResultTree.sizeAll_cons, ResultTree.size_node, ResultTree.sizeAll_nil]
    omega

/-- The ways in which a node can be collected: left out, kept as a leaf, or kept
over the trees its moves lead to. -/
theorem collect_eq_ok {ctx : Context} {v : Vertex} {trail : Trail} {c c' : Collector σ}
    {found : Option ResultTree}
    (h : collect g ctx topology hook (levels + 1) v trail c = (.ok found, c')) :
    c.count + 1 ≤ ctx.limits.resultCount ∧ ∃ k n s,
      hook g { vertex := v, trail := trail.key } c.hook = (.ok (k, n), s) ∧
      ((k = .drop ∧ found = none ∧ c' = c.counted s) ∨
        (k ≠ .drop ∧ found = some (.node n []) ∧ c' = c.counted s ∧ (k = .expand →
          (trail.below ≠ [] ∧ topology.root.fits n.vertex) ∨ topology.next trail = [])) ∨
        ∃ ns cs, k = .expand ∧ ¬ (trail.below ≠ [] ∧ topology.root.fits n.vertex) ∧
          g.adjacent n.vertex.id .both .any = .ok ns ∧
          collectMoves (collect g ctx topology hook levels) trail
            (moves (topology.next trail) ns) (c.counted s) = (.ok cs, c') ∧
          found = some (.node n cs)) := by
  unfold collect at h
  dsimp only at h
  split at h
  · cases h
  · next hcount =>
      refine ⟨Nat.le_of_not_lt hcount, ?_⟩
      split at h
      · cases h
      · next n s hhook => cases h; exact ⟨_, n, s, hhook, .inl ⟨rfl, rfl, rfl⟩⟩
      · next n s hhook =>
          cases h
          exact ⟨_, n, s, hhook,
            .inr (.inl ⟨Visit.noConfusion, rfl, rfl, fun hk => by cases hk⟩)⟩
      · next n s hhook =>
          refine ⟨_, n, s, hhook, .inr ?_⟩
          split at h
          · next hleaf => cases h; exact .inl ⟨Visit.noConfusion, rfl, rfl, fun _ => hleaf⟩
          · next hopen =>
              split at h
              · cases h
              · next ns hns =>
                  split at h
                  · cases h
                  · next cs c₂ hmoves =>
                      cases h
                      exact .inr ⟨ns, cs, rfl, fun hl => hopen (.inl hl), hns, hmoves, rfl⟩

/-- A walk that is given so many levels gathers trees of at most that height. -/
theorem visits_collect (wf : g.WellFormed) (hk : hook.Keeps) (ctx : Context) (levels : Nat) :
    Visits g topology hook ctx.limits.resultCount levels
      (collect g ctx topology hook levels) := by
  induction levels with
  | zero => intro v trail c c' found _ _ h; cases h
  | succ levels ih =>
      intro v trail c c' found hv hnew h
      obtain ⟨hcount, k, n, s, hhook, hcases⟩ := collect_eq_ok h
      obtain ⟨hvertex, htrail⟩ := hk hhook
      dsimp only at hvertex htrail
      subst hvertex
      have hsteps : ∀ cs,
          topology.stepsAt (ResultTree.node n cs).top.trail = topology.next trail := by
        intro cs
        rw [ResultTree.top, htrail, Topology.next_eq]
      -- a dropped node is met without being built, which an expanding hook rules out
      rcases hcases with ⟨rfl, rfl, rfl⟩ | ⟨hkept, rfl, rfl, hleaf⟩ |
        ⟨ns, cs, -, hopen, hns, hcs, rfl⟩
      · refine ⟨⟨by simp, by simp, ?_, fun he => ?_, ?_, fun _ => hcount⟩, ?_, by simp⟩
        · exact fun _ hid => List.mem_cons_of_mem _ hid
        · cases he hhook
        · simp [Collector.counted]
        · simp [Collector.counted]
      · refine ⟨.node (s := s) hnew hcount (.nothing _), by simp [Collector.counted], ?_⟩
        rintro t ⟨⟩
        refine ⟨rfl, htrail, .node ⟨by simp [ResultTree.children], fun _ _ => rfl⟩ ?_ (by simp)⟩
        intro ho hopen step hstep
        have hexpanded : k = .expand := by
          cases k with
          | expand => rfl
          | leaf => exact absurd rfl (ho hhook)
          | drop => exact absurd rfl hkept
        rcases hleaf hexpanded with hnested | hnone
        · exact absurd hnested hopen
        · rw [hsteps, hnone] at hstep
          cases hstep
      -- an open node: its moves are the fitting neighbours, and all are made
      · obtain ⟨ns', hns', hmem⟩ := wf.neighbours hv
        rw [hns] at hns'
        cases hns'
        obtain ⟨hg, hmoved, hgrown⟩ := collectMoves_spec ih
          (fun m hm => ((hmem _).mp (mem_moves.mp hm).2.1).1) hcs
        refine ⟨.node hnew hcount hg, hg.keeps _ (by simp [Collector.counted]), ?_⟩
        rintro t ⟨⟩
        refine ⟨rfl, htrail, .node ⟨fun t ht => ?_, fun hi hf => absurd ⟨hi, hf⟩ hopen⟩ ?_
          fun t ht => (hgrown t ht).1⟩
        · obtain ⟨_, ⟨step, w⟩, hm, htop, hkey⟩ := hgrown t ht
          obtain ⟨hstep, hw, hfits⟩ := mem_moves.mp hm
          obtain ⟨hw, hadj⟩ := (hmem w).mp hw
          rw [htop, hkey, hsteps, Trail.key_extend, ← htrail]
          exact ⟨hw, hadj, step, hstep, hfits, rfl⟩
        · intro _ _ step hstep w hw hadj hfits
          rw [hsteps] at hstep
          exact hmoved (step, w) (mem_moves.mpr ⟨hstep, (hmem w).mpr ⟨hw, hadj⟩, hfits⟩)

end

/-! ## Instances -/

/-- What the walk from a root is expected to collect. -/
structure Collects (g : Graph) (ctx : Context) (topology : Topology) (root : Vertex)
    (t : ResultTree) : Prop where
  top : t.top.vertex = root ∧ t.top.trail = topology.rootTrail.key
  /-- No vertex stands twice. -/
  once : t.ids.Nodup
  within : t.size ≤ ctx.limits.resultCount
  deep : ∀ {d s}, t.At d s → d ≤ ctx.limits.levels
  /-- A child is a neighbour, and stands at a step that it fits. -/
  child : ∀ {d s}, t.At d s → ∀ c ∈ s.children,
    g.vertices.get? c.top.vertex.id = some c.top.vertex ∧
      g.Adjacent s.top.vertex.id c.top.vertex.id ∧
      ∃ step ∈ topology.stepsAt s.top.trail, step.fits c.top.vertex = true ∧
        c.top.trail = s.top.trail ++ "|" ++ step.render
  /-- Nothing stands below a repetition of the root step. -/
  nested : ∀ {d s}, t.At (d + 1) s → topology.root.fits s.top.vertex = true → s.children = []
  /-- No neighbour of an expanded node is missing. -/
  complete : ∀ {d s}, t.At d s → (d = 0 ∨ topology.root.fits s.top.vertex = false) →
    ∀ step ∈ topology.stepsAt s.top.trail, ∀ w, g.vertices.get? w.id = some w →
      g.Adjacent s.top.vertex.id w.id → step.fits w = true → w.id ∈ t.ids

/-- An instance is collected by a walk from a root of the right type, with
nothing met but the root. -/
theorem collectDecorated_eq_ok {g : Graph} {ctx : Context} {topology : Topology}
    {f : ResultNode → ResultNode} {root : Vertex} {t : ResultTree}
    (h : collectDecorated g ctx topology f root = .ok t) :
    root.nodeType = topology.root.nodeType ∧ ∃ c',
      collect g ctx topology (Hook.decorate f) (ctx.levelsFrom 0) root topology.rootTrail
        { visited := [root.id], hook := () } = (.ok (some t), c') := by
  unfold collectDecorated collectFrom at h
  by_cases htype : root.nodeType = topology.root.nodeType
  · rw [if_neg (not_not.mpr htype)] at h
    split at h
    · next t' heq =>
        cases h
        exact ⟨htype, _, Prod.ext heq rfl⟩
    · cases h
    · cases h
  · rw [if_pos htype] at h
    cases h

theorem collectDecorated_collects {g : Graph} (hg : g.Reachable) {ctx : Context}
    {topology : Topology} {f : ResultNode → ResultNode} {root : Vertex} {t : ResultTree}
    (hf : ∀ n, (f n).vertex = n.vertex ∧ (f n).trail = n.trail)
    (hroot : g.vertices.get? root.id = some root)
    (h : collectDecorated g ctx topology f root = .ok t) : Collects g ctx topology root t := by
  obtain ⟨-, c', hc⟩ := collectDecorated_eq_ok h
  have hexpands : (Hook.decorate f).Expands := Hook.expands_decorate f
  have hvisits : Visits g topology (Hook.decorate f) ctx.limits.resultCount
      (ctx.levelsFrom 0) (collect g ctx topology (Hook.decorate f) (ctx.levelsFrom 0)) :=
    visits_collect hg.wellFormed (Hook.keeps_decorate hf) ctx _
  obtain ⟨hgathers, _, htree⟩ := hvisits (c := { hook := () }) hroot List.not_mem_nil hc
  obtain ⟨htop, htrail, hgrows⟩ := htree t rfl
  have hids : ResultTree.idsAll (some t).toList = t.ids := by simp
  have hinner : topology.rootTrail.below = [] := rfl
  refine ⟨⟨htop, htrail⟩, hids ▸ hgathers.once, ?_, fun ht => ?_, fun ht => ?_, fun ht => ?_,
    fun {d s} ht hd => ?_⟩
  · have := hgathers.counts
    have := hgathers.within (Nat.zero_le _)
    simp only [Option.toList_some, ResultTree.sizeAll_cons, ResultTree.sizeAll_nil] at *
    omega
  · exact Nat.lt_succ_iff.mp (hgrows.deep ht)
  · exact (hgrows.walked ht).child
  · exact (hgrows.walked ht).nested (.inr (Nat.succ_pos _))
  -- everything met is in the tree, as the walk began with nothing met
  · intro step hstep w hw hadj hfits
    have hopen : ¬ ((topology.rootTrail.below ≠ [] ∨ 0 < d) ∧
        topology.root.fits s.top.vertex = true) := by
      rintro ⟨hi, hroot⟩
      rcases hd with rfl | hd
      · simp [hinner] at hi
      · simp [hd] at hroot
    have hseen := hgrows.complete hexpands.opens ht hopen step hstep w hw hadj hfits
    rcases hgathers.only hexpands _ hseen with hm | hm
    · cases hm
    · exact hids ▸ hm

/-- **An instance is collected completely and without repetition.** Whatever
the graph, the topology and the limits, a walk that succeeds yields a tree
within the limits whose vertices are all different, whose children are
neighbours placed at steps they fit, and in which no fitting neighbour of an
expanded node is missing. -/
theorem collectInstance_collects {g : Graph} (hg : g.Reachable) {ctx : Context}
    {topology : Topology} {root : Vertex} {t : ResultTree}
    (hroot : g.vertices.get? root.id = some root)
    (h : collectInstance g ctx topology root = .ok t) : Collects g ctx topology root t :=
  collectDecorated_collects hg (fun _ => ⟨rfl, rfl⟩) hroot h

/-! ### A triangle -/

namespace Walk

def triangleVertices : List Vertex :=
  [⟨"a", "service", ∅⟩, ⟨"b", "vserver", ∅⟩, ⟨"c", "vserver", ∅⟩, ⟨"d", "service", ∅⟩]

def triangleEdges : List Edge :=
  [⟨"1", "a", "b", "has", ∅⟩, ⟨"2", "b", "c", "link", ∅⟩, ⟨"3", "c", "a", "link", ∅⟩,
    ⟨"4", "d", "b", "has", ∅⟩]

/-- A service and two servers in a ring, and a second service at one of them. -/
def triangle : Graph := (Graph.ofParts triangleVertices triangleEdges).toOption.getD .empty

/-- Servers below services, servers and services below servers. -/
def triangleTopology : Topology where
  root := ⟨"service", none⟩
  entries := Table.ofList [("service", [⟨"vserver", none⟩]),
    ("service|vserver", [⟨"service", none⟩, ⟨"vserver", none⟩])]

/-- The ring is walked once around; the second service is a leaf. -/
theorem collectInstance_collects_triangle :
    triangle.Reachable ∧ triangle.vertices.get? "a" = some ⟨"a", "service", ∅⟩ ∧
      ∃ t, collectInstance triangle {} triangleTopology ⟨"a", "service", ∅⟩ = .ok t ∧
        t.ids = ["a", "b", "d", "c"] ∧
        Collects triangle {} triangleTopology ⟨"a", "service", ∅⟩ t := by
  have hg : triangle.Reachable :=
    Graph.reachable_ofParts
      (show Graph.ofParts triangleVertices triangleEdges = .ok triangle from rfl)
  have hroot : triangle.vertices.get? "a" = some ⟨"a", "service", ∅⟩ := by decide
  have hrun : collectInstance triangle {} triangleTopology ⟨"a", "service", ∅⟩ =
      .ok (.node ⟨⟨"a", "service", ∅⟩, "service", false, false, none, ∅, ∅⟩
        [.node ⟨⟨"b", "vserver", ∅⟩, "service|vserver", false, false, none, ∅, ∅⟩
          [.node ⟨⟨"d", "service", ∅⟩, "service|vserver|service", false, false, none, ∅, ∅⟩ [],
            .node ⟨⟨"c", "vserver", ∅⟩, "service|vserver|vserver", false, false, none, ∅, ∅⟩
              []]]) := by rfl
  exact ⟨hg, hroot, _, hrun, by decide, collectInstance_collects hg hroot hrun⟩

end Walk

end Inventory
