import Inventory.Proofs.Walk.Legal

/-!
# Walk — what a hook lets through

A hook may drop the node at which a walk looks. Every node that is collected
has passed it. A vertex that the walk looks at is met once, so it is collected
unless the hook dropped it at the place where it was met first, which may be
another place than the one where it is looked for.
-/

namespace Inventory

open Meeting ResultTree

/-! ## Passing and dropping -/

namespace Hook

variable {σ : Type}

/-- The node is one that the hook has kept. -/
def Passes (hook : Hook σ) (g : Graph) (n : ResultNode) : Prop :=
  ∃ v k s how s', hook g { vertex := v, trail := k } s = (.ok (how, n), s') ∧ how ≠ .drop

/-- The hook may drop a vertex at the trail with a key. -/
def Drops (hook : Hook σ) (g : Graph) (v : Vertex) (k : String) : Prop :=
  ∃ s n s', hook g { vertex := v, trail := k } s = (.ok (.drop, n), s')

end Hook

section

variable {σ : Type} {hook : Hook σ} {g : Graph} {ctx : Context} {topology : Topology}
  {levels : Nat} {t : ResultTree}

/-- Every tree that moves yield is one that a visit yields. -/
theorem collectMoves_yields
    {visit : Vertex → Trail → Collector σ → Outcome (Option ResultTree) × Collector σ}
    {trail : Trail} {ms : List (TrailStep × Vertex)} {c c' : Collector σ} {ts : List ResultTree}
    (h : collectMoves visit trail ms c = (.ok ts, c')) (ht : t ∈ ts) :
    ∃ w trail' c₁ c₂, visit w trail' c₁ = (.ok (some t), c₂) := by
  induction ms generalizing c ts with
  | nil => cases h; cases ht
  | cons m ms ih =>
      rw [collectMoves_cons] at h
      split at h
      · exact ih h ht
      · obtain ⟨found, c₁, trees, hvisit, hrest, rfl⟩ := followed_eq_ok h
        rcases List.mem_append.mp ht with ht | ht
        · obtain rfl : found = some t := by simpa using ht
          exact ⟨_, _, _, _, hvisit⟩
        · exact ih hrest ht

/-- Every node of a collected tree has passed the hook. -/
theorem collect_passes {v : Vertex} {trail : Trail} {c c' : Collector σ}
    (h : collect g ctx topology hook levels v trail c = (.ok (some t), c'))
    {n : ResultNode} (hn : n ∈ t.preorder) : hook.Passes g n := by
  induction levels generalizing v trail c c' t with
  | zero => cases h
  | succ levels ih =>
      obtain ⟨-, how, m, s, hhook, hcases⟩ := collect_eq_ok h
      rcases hcases with ⟨-, hnone, -⟩ | ⟨hkept, hleaf, -, -⟩ | ⟨ns, cs, rfl, -, -, hmoves, hnode⟩
      · cases hnone
      · cases hleaf
        rw [preorder, preorderAll, List.mem_singleton] at hn
        subst hn
        exact ⟨_, _, _, _, _, hhook, hkept⟩
      · cases hnode
        rw [preorder, List.mem_cons] at hn
        rcases hn with rfl | hn
        · exact ⟨_, _, _, _, _, hhook, Visit.noConfusion⟩
        · obtain ⟨t', ht', hn⟩ := mem_preorderAll.mp hn
          obtain ⟨w, trail', c₁, c₂, hvisit⟩ := collectMoves_yields hmoves ht'
          exact ih hvisit hn

end

/-! ## Looking at vertices -/

/-- An expanded node of a tree has a vertex as a neighbour that fits a next
step, and the step leads to a trail with this key. A node that fits the root
step is expanded only at the top, and there only if the tree is not an inner one. -/
inductive LooksAt (g : Graph) (topology : Topology) (inner : Prop) (t : ResultTree) (w : Vertex) :
    String → Prop where
  | step {d : Nat} {s : ResultTree} {step : TrailStep} : t.At d s →
      ¬ ((inner ∨ 0 < d) ∧ topology.root.fits s.top.vertex = true) →
      step ∈ topology.stepsAt s.top.trail → g.vertices.get? w.id = some w →
      g.Adjacent s.top.vertex.id w.id → step.fits w = true →
      LooksAt g topology inner t w (s.top.trail ++ "|" ++ step.render)

section

variable {σ : Type} {hook : Hook σ} {g : Graph} {ctx : Context} {topology : Topology}
  {levels : Nat} {inner : Prop} {t : ResultTree} {w : Vertex} {k : String}

theorem LooksAt.stored (h : LooksAt g topology inner t w k) :
    g.vertices.get? w.id = some w := by
  obtain ⟨-, -, -, hw, -, -⟩ := h
  exact hw

/-- What a child looks at, its parent's tree looks at. -/
theorem LooksAt.under {n : ResultNode} {cs : List ResultTree} {c : ResultTree} (hc : c ∈ cs)
    (h : LooksAt g topology True c w k) : LooksAt g topology inner (.node n cs) w k := by
  obtain ⟨ht, hopen, hstep, hw, hadj, hfits⟩ := h
  exact .step (.under hc ht) (fun hi => hopen ⟨.inl trivial, hi.2⟩) hstep hw hadj hfits

/-- Where no node is kept as a leaf, every vertex that is looked at is met. -/
theorem Grows.met {seen : List VertexId} (h : Grows g topology hook levels seen inner t)
    (ho : hook.Opens) (hl : LooksAt g topology inner t w k) : w.id ∈ seen := by
  obtain ⟨ht, hopen, hstep, hw, hadj, hfits⟩ := hl
  exact h.complete ho ht hopen _ hstep _ hw hadj hfits

/-- A tree looks at a vertex with this id at a place where the hook drops it. -/
def DropsIn (hook : Hook σ) (g : Graph) (topology : Topology) (inner : Prop) (t : ResultTree)
    (id : VertexId) : Prop :=
  ∃ w k, w.id = id ∧ LooksAt g topology inner t w k ∧ hook.Drops g w k

/-! ## What becomes of the vertices that are met -/

/-- A visit meets the vertices of the tree it builds and those that are dropped
on the way. Where it builds none, it drops the one vertex that it meets. -/
def VisitsAccount (g : Graph) (topology : Topology) (hook : Hook σ)
    (visit : Vertex → Trail → Collector σ → Outcome (Option ResultTree) × Collector σ) : Prop :=
  ∀ {v trail found} {c c' : Collector σ}, g.vertices.get? v.id = some v →
    visit v trail { c with visited := v.id :: c.visited } = (.ok found, c') →
    (found = none → hook.Drops g v trail.key ∧ c'.visited = v.id :: c.visited) ∧
      ∀ t ∈ found, ∀ id ∈ c'.visited,
        id ∈ c.visited ∨ id ∈ t.ids ∨ DropsIn hook g topology (trail.below ≠ []) t id

/-- What moves meet stands in a tree they yield, or is dropped: by a move itself
or below it. -/
theorem collectMoves_accounts
    {visit : Vertex → Trail → Collector σ → Outcome (Option ResultTree) × Collector σ}
    (hvisit : VisitsAccount g topology hook visit) {trail : Trail}
    {ms : List (TrailStep × Vertex)} {c c' : Collector σ} {ts : List ResultTree}
    (hms : ∀ m ∈ ms, g.vertices.get? m.2.id = some m.2)
    (h : collectMoves visit trail ms c = (.ok ts, c')) {id : VertexId} (hid : id ∈ c'.visited) :
    id ∈ c.visited ∨ id ∈ idsAll ts ∨ (∃ t ∈ ts, DropsIn hook g topology True t id) ∨
      ∃ m ∈ ms, m.2.id = id ∧ hook.Drops g m.2 (trail.extend m.1).key := by
  induction ms generalizing c ts with
  | nil => cases h; exact .inl hid
  | cons m ms ih =>
      obtain ⟨step, w⟩ := m
      obtain ⟨hw, hrest⟩ := List.forall_mem_cons.mp hms
      have hlater : ∀ {m}, m ∈ ms → m ∈ (step, w) :: ms := List.mem_cons_of_mem _
      rw [collectMoves_cons] at h
      split at h
      · rcases ih hrest h with hold | hin | hdrop | ⟨m, hm, hmoved⟩
        · exact .inl hold
        · exact .inr (.inl hin)
        · exact .inr (.inr (.inl hdrop))
        · exact .inr (.inr (.inr ⟨m, hlater hm, hmoved⟩))
      · obtain ⟨found, c₁, trees, hv, hr, rfl⟩ := followed_eq_ok h
        obtain ⟨hnone, hsome⟩ := hvisit hw hv
        rcases ih hrest hr with hold | hin | ⟨t, ht, hdrop⟩ | ⟨m, hm, hmoved⟩
        · -- met by the visit of this move, or before it
          cases found with
          | none =>
              obtain ⟨hdrop, hvisited⟩ := hnone rfl
              rw [hvisited] at hold
              rcases List.mem_cons.mp hold with rfl | hold
              · exact .inr (.inr (.inr ⟨(step, w), List.mem_cons_self, rfl, hdrop⟩))
              · exact .inl hold
          | some t =>
              rcases hsome t rfl id hold with hold | hin | hdrop
              · exact .inl hold
              · exact .inr (.inl (by simp [hin]))
              · rw [eq_true (Trail.extend_below_ne_nil trail step)] at hdrop
                exact .inr (.inr (.inl ⟨t, by simp, hdrop⟩))
        · refine .inr (.inl ?_)
          cases found <;> simp [hin]
        · exact .inr (.inr (.inl ⟨t, List.mem_append_right _ ht, hdrop⟩))
        · exact .inr (.inr (.inr ⟨m, hlater hm, hmoved⟩))

theorem visitsAccount_collect (wf : g.WellFormed) (hk : hook.Keeps) (ctx : Context)
    (levels : Nat) : VisitsAccount g topology hook (collect g ctx topology hook levels) := by
  induction levels with
  | zero => intro v trail c c' found _ h; cases h
  | succ levels ih =>
      intro v trail c c' found hv h
      obtain ⟨-, how, n, s, hhook, hcases⟩ := collect_eq_ok h
      obtain ⟨hvertex, htrail⟩ := hk hhook
      dsimp only at hvertex htrail
      subst hvertex
      rcases hcases with ⟨rfl, rfl, rfl⟩ | ⟨-, rfl, rfl, -⟩ | ⟨ns, cs, -, hopen, hns, hcs, rfl⟩
      · exact ⟨fun _ => ⟨⟨_, _, _, hhook⟩, rfl⟩, by simp⟩
      · refine ⟨by simp, ?_⟩
        rintro t ⟨⟩ id hid
        rcases List.mem_cons.mp hid with rfl | hid
        · exact .inr (.inl (by simp [ids_node]))
        · exact .inl hid
      · refine ⟨by simp, ?_⟩
        rintro t ⟨⟩ id hid
        obtain ⟨ns', hns', hmem⟩ := wf.neighbours hv
        rw [hns] at hns'
        cases hns'
        have hstored : ∀ m ∈ moves (topology.next trail) ns, g.vertices.get? m.2.id = some m.2 :=
          fun m hm => ((hmem _).mp (mem_moves.mp hm).2.1).1
        rcases collectMoves_accounts ih hstored hcs hid with
          hold | hin | ⟨t, ht, w, k, hw, hl, hdrop⟩ | ⟨⟨step, w⟩, hm, hw, hdrop⟩
        · rcases List.mem_cons.mp hold with rfl | hold
          · exact .inr (.inl (by simp [ids_node]))
          · exact .inl hold
        · exact .inr (.inl (by simp [ids_node, hin]))
        · exact .inr (.inr ⟨w, k, hw, hl.under ht, hdrop⟩)
        -- a move that is dropped was looked at from this node
        · obtain ⟨hstep, hnear, hfits⟩ := mem_moves.mp hm
          obtain ⟨hstored, hadj⟩ := (hmem w).mp hnear
          refine .inr (.inr ⟨w, _, hw, ?_, hdrop⟩)
          rw [Trail.key_extend, ← htrail]
          refine .step (s := .node n cs) (.here _) (fun hi => hopen ⟨?_, hi.2⟩) ?_ hstored hadj
            hfits
          · simpa using hi.1
          · rwa [top, htrail, ← Topology.next_eq]

end

/-! ## Trees under a root -/

section

variable {σ : Type} {hook : Hook σ} {g : Graph} {ctx : Context} {topology : Topology}
  {root : Vertex} {c c' : Collector σ} {t : ResultTree}

theorem collectFrom_eq_ok {found : Option ResultTree}
    (h : collectFrom g ctx topology hook root c = (.ok found, c')) :
    root.nodeType = topology.root.nodeType ∧
      collect g ctx topology hook (ctx.levelsFrom 0) root topology.rootTrail
        { c with visited := [root.id] } = (.ok found, c') := by
  unfold collectFrom at h
  split at h
  · cases h
  · next htype => exact ⟨not_not.mp htype, h⟩

/-- What is collected under a root stands once, and grows from the root. -/
theorem collectFrom_grows (wf : g.WellFormed) (hk : hook.Keeps)
    (hroot : g.vertices.get? root.id = some root)
    (h : collectFrom g ctx topology hook root c = (.ok (some t), c')) :
    t.ids.Nodup ∧ t.top.vertex = root ∧ t.top.trail = topology.rootTrail.key ∧
      Grows g topology hook (ctx.levelsFrom 0) c'.visited False t := by
  obtain ⟨-, hrun⟩ := collectFrom_eq_ok h
  have hvisits : Visits g topology hook ctx.limits.resultCount (ctx.levelsFrom 0)
      (collect g ctx topology hook (ctx.levelsFrom 0)) := visits_collect wf hk ctx _
  obtain ⟨hgathers, -, htree⟩ :=
    hvisits (c := { c with visited := [] }) hroot List.not_mem_nil hrun
  obtain ⟨htop, htrail, hgrows⟩ := htree t rfl
  rw [eq_false (show ¬ topology.rootTrail.below ≠ [] from not_not.mpr rfl)] at hgrows
  exact ⟨by simpa using hgathers.once, htop, htrail, hgrows⟩

/-- A vertex that the walk looks at is collected, or dropped at some place where
the walk looks at it. -/
theorem collectFrom_looksAt (wf : g.WellFormed) (hk : hook.Keeps) (ho : hook.Opens)
    (hroot : g.vertices.get? root.id = some root)
    (h : collectFrom g ctx topology hook root c = (.ok (some t), c')) {w : Vertex} {k : String}
    (hl : LooksAt g topology False t w k) :
    w.id ∈ t.ids ∨ ∃ k', LooksAt g topology False t w k' ∧ hook.Drops g w k' := by
  obtain ⟨-, -, -, hgrows⟩ := collectFrom_grows wf hk hroot h
  obtain ⟨-, hrun⟩ := collectFrom_eq_ok h
  have haccount : VisitsAccount g topology hook
      (collect g ctx topology hook (ctx.levelsFrom 0)) := visitsAccount_collect wf hk ctx _
  obtain ⟨-, hsome⟩ := haccount (c := { c with visited := [] }) hroot hrun
  rcases hsome t rfl w.id (hgrows.met ho hl) with hmem | hin | ⟨w', k', hid, hl', hdrop⟩
  · cases hmem
  · exact .inl hin
  · obtain rfl : w' = w := Option.some.inj (hl'.stored.symm.trans (hid ▸ hl.stored))
    rw [eq_false (show ¬ topology.rootTrail.below ≠ [] from not_not.mpr rfl)] at hl'
    exact .inr ⟨k', hl', hdrop⟩

/-- Every node of a collected tree is at the end of a legal path, along which
holds what holds of every node. -/
theorem Grows.path {levels : Nat} {seen : List VertexId}
    (h : Grows g topology hook levels seen False t) (hvertex : t.top.vertex = root)
    (htrail : t.top.trail = topology.rootTrail.key) {A : String → Vertex → Prop}
    (hall : ∀ n ∈ t.preorder, A n.trail n.vertex) {d : Nat} {s : ResultTree} (hs : t.At d s) :
    ∃ trail, Relation.ReflTransGen (fun p q => Onward g topology p q ∧ A q.trail.key q.vertex)
        (topology.start root) ⟨s.top.vertex, trail⟩ ∧
      trail.key = s.top.trail ∧ trail.below.length = d := by
  induction d generalizing s with
  | zero =>
      cases hs
      rw [hvertex]
      exact ⟨topology.rootTrail, .refl, htrail.symm, rfl⟩
  | succ d ih =>
      obtain ⟨p, hp, hmem⟩ := hs.parent
      obtain ⟨trail, hpath, hkey, hlength⟩ := ih hp
      have hwalked := h.walked hp
      obtain ⟨hw, hadj, step, hstep, hfits, hat⟩ := hwalked.child s hmem
      have hopen : trail.below = [] ∨ topology.root.fits p.top.vertex = false := by
        cases d with
        | zero => exact .inl (List.length_eq_zero_iff.mp hlength)
        | succ d =>
            refine .inr (Bool.eq_false_iff.mpr fun hf => ?_)
            rw [hwalked.nested (.inr d.succ_pos) hf] at hmem
            cases hmem
      have hnext : step ∈ topology.next trail := by
        rwa [Topology.next_eq, hkey]
      have hend : (trail.extend step).key = s.top.trail := by
        rw [Trail.key_extend, hkey, hat]
      refine ⟨trail.extend step, hpath.tail ⟨.step hopen hnext hw hadj hfits, ?_⟩, hend, ?_⟩
      · rw [hend]
        exact hall _ hs.mem_preorder
      · rw [Trail.extend, List.length_append, hlength]
        rfl

end

end Inventory
