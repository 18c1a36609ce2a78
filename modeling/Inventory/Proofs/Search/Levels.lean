import Inventory.Proofs.Search.Gathered
import Inventory.Proofs.Search.Tops

/-!
# Search — what the level limit measures

A search counts the hops of the chain of calls that it is in. Such a chain does
not come back to a vertex that it has passed, yet it need not be a shortest one
to where it ends. So the limit lies between two measures of the graph, which do
not depend on the order of its edges: a search fails when a vertex it may reach
is farther off than the limit, and only when some chain of hops without
repetition is longer than the limit. Of a climb the latter is said where no
chain that is as long as the limit turns back.
-/

namespace Inventory

namespace Search

/-! ## Steps and chains -/

/-- At most so many steps lead from one vertex to another. -/
inductive InSteps (R : Vertex → Vertex → Prop) : Nat → Vertex → Vertex → Prop where
  | here {n : Nat} {v : Vertex} : InSteps R n v v
  | step {n : Nat} {u v w : Vertex} : R u v → InSteps R n v w → InSteps R (n + 1) u w

/-- A vertex of that id is so few steps off. -/
def Near (R : Vertex → Vertex → Prop) (n : Nat) (v : Vertex) (id : VertexId) : Prop :=
  ∃ w, InSteps R n v w ∧ w.id = id

/-- Some chain of so many steps comes to no vertex twice. -/
def HasPath (R : Vertex → Vertex → Prop) (n : Nat) (v : Vertex) : Prop :=
  ∃ ws, (v :: ws).IsChain R ∧ ws.length = n ∧ ((v :: ws).map (·.id)).Nodup

/-- From the end of some chain of so many steps that comes to no vertex twice,
one more step leads back to a vertex of the chain. -/
def TurnsBack (R : Vertex → Vertex → Prop) (n : Nat) (v : Vertex) : Prop :=
  ∃ ws w, (v :: (ws ++ [w])).IsChain R ∧ ws.length = n ∧ ((v :: ws).map (·.id)).Nodup ∧
    w.id ∈ (v :: ws).map (·.id)

variable {R : Vertex → Vertex → Prop}

/-- A chain that comes to no vertex twice before its last step comes to none twice
with it, unless that step turns back. -/
theorem hasPath_of_not_turnsBack {n : Nat} {v : Vertex} (hback : ¬ TurnsBack R n v)
    {ws : List Vertex} (hchain : (v :: ws).IsChain R) (hlength : ws.length = n + 1)
    (honce : ((v :: ws).dropLast.map (·.id)).Nodup) : HasPath R (n + 1) v := by
  obtain rfl | ⟨us, w, rfl⟩ := List.eq_nil_or_concat' ws
  · cases hlength
  have hlength' : us.length = n := by simpa using hlength
  rw [← List.cons_append, List.dropLast_concat] at honce
  have hnew : w.id ∉ (v :: us).map (·.id) := fun hmem =>
    hback ⟨us, w, hchain, hlength', honce, hmem⟩
  refine ⟨us ++ [w], hchain, hlength, ?_⟩
  rw [← List.cons_append, List.map_append]
  refine List.nodup_append.mpr ⟨honce, List.pairwise_singleton _ _, fun x hx y hy => ?_⟩
  obtain rfl := List.mem_singleton.mp hy
  rintro rfl
  exact hnew hx

theorem InSteps.mono {n m : Nat} {v w : Vertex} (h : InSteps R n v w) (hnm : n ≤ m) :
    InSteps R m v w := by
  induction h generalizing m with
  | here => exact .here
  | step hr _ ih =>
      obtain ⟨m, rfl⟩ := Nat.exists_eq_add_of_lt hnm
      exact .step hr (ih (by omega))

theorem InSteps.tail {n : Nat} {u v w : Vertex} (h : InSteps R n u v) (hr : R v w) :
    InSteps R (n + 1) u w := by
  induction h with
  | here => exact .step hr .here
  | step hr' _ ih => exact .step hr' (ih hr)

theorem InSteps.imp {R' : Vertex → Vertex → Prop} (hR : ∀ {v w}, R v w → R' v w) {n : Nat}
    {v w : Vertex} (h : InSteps R n v w) : InSteps R' n v w := by
  induction h with
  | here => exact .here
  | step hr _ ih => exact .step (hR hr) ih

/-- None of the vertices comes twice, and none had been met. -/
structure Fresh (met : List VertexId) (ws : List Vertex) : Prop where
  once : (ws.map (·.id)).Nodup
  unmet : ∀ w ∈ ws, w.id ∉ met

theorem Fresh.nil (met : List VertexId) : Fresh met [] where
  once := List.nodup_nil
  unmet := by simp

/-- A vertex that had not been met comes before those that had not been met
after it. -/
theorem Fresh.cons {met met' : List VertexId} {v : Vertex} {ws : List Vertex} (hnew : v.id ∉ met)
    (hkeeps : ∀ id ∈ v.id :: met, id ∈ met') (h : Fresh met' ws) : Fresh met (v :: ws) where
  once := by
    rw [List.map_cons, List.nodup_cons]
    refine ⟨fun hmem => ?_, h.once⟩
    obtain ⟨w, hw, hid⟩ := List.mem_map.mp hmem
    exact h.unmet w hw (hid ▸ hkeeps _ List.mem_cons_self)
  unmet := List.forall_mem_cons.mpr
    ⟨hnew, fun w hw hmet => h.unmet w hw (hkeeps _ (List.mem_cons_of_mem _ hmet))⟩

end Search

open Search

/-! ## Climbs -/

namespace Climb

variable {q : Climb} {g : Graph}

/-- A call keeps what was found stored, and what had been met met. -/
theorem keeps_climb (wf : g.WellFormed) {levels : Nat} {w : Vertex}
    (hw : g.vertices.get? w.id = some w) {met : List VertexId} {c c' : Climbed}
    (h : climb g q levels w c = .ok c')
    (hc : Stored g c.found ∧ ∀ id ∈ met, id ∈ c.visited) :
    Stored g c'.found ∧ ∀ id ∈ met, id ∈ c'.visited := by
  obtain ⟨hadds, -⟩ := adds_climb (D := fun _ => True) wf (fun _ _ => trivial) hw trivial hc.1 h
  exact ⟨hadds.stored hc.1, fun id hid => hadds.keeps id (hc.2 id hid)⟩

/-- A climb that fails has gone along a chain as long as its levels, through
vertices that it had not met. -/
theorem climb_eq_error (wf : g.WellFormed) {levels : Nat} {v : Vertex} {c : Climbed}
    {e : SearchError} (hv : g.vertices.get? v.id = some v) (hc : Stored g c.found)
    (h : climb g q levels v c = .error e) :
    e = .maxLevelsExceeded q.maxLevels ∧ ∃ ws, (v :: ws).IsChain (q.Onward g) ∧
      ws.length = levels ∧ Fresh c.visited (v :: ws).dropLast := by
  induction levels generalizing v c with
  | zero =>
      cases h
      exact ⟨rfl, [], .singleton v, rfl, .nil _⟩
  | succ levels ih =>
      rw [climb] at h
      split at h
      · cases h
      · next hnew =>
          split at h
          · cases h
          · next htype =>
              obtain ⟨ws, hws⟩ :=
                wf.taggedNeighbours_total (Graph.contains_iff.mpr ⟨v, hv⟩) q.tag q.direction
              have h := Outcome.eq_error_of_bind hws h
              have hmem := wf.mem_taggedNeighbours hws
              obtain ⟨w, hw, c', ⟨hstored, hkeeps⟩, hfail⟩ :=
                Outcome.foldlM_eq_error (b := met c v.id)
                  (P := fun c' => Stored g c'.found ∧ ∀ id ∈ (met c v.id).visited, id ∈ c'.visited)
                  (fun w hw => keeps_climb wf ((hmem w).mp hw).1) h ⟨hc, fun _ hid => hid⟩
              obtain ⟨hw, hhops⟩ := (hmem w).mp hw
              obtain ⟨he, rest, hchain, hlength, hfresh⟩ := ih hw hstored hfail
              refine ⟨he, w :: rest, .cons_cons ⟨htype, hw, hhops⟩ hchain,
                congrArg (· + 1) hlength, ?_⟩
              rw [List.dropLast_cons_cons]
              exact hfresh.cons hnew hkeeps

/-- A climb that succeeds has met vertices within its levels. -/
theorem near_climb (wf : g.WellFormed) {levels : Nat} {v : Vertex} {c c' : Climbed}
    (h : climb g q levels v c = .ok c') :
    ∀ id ∈ c'.visited, id ∈ c.visited ∨ ∃ n < levels, Near (q.Onward g) n v id := by
  induction levels generalizing v c c' with
  | zero => cases h
  | succ levels ih =>
      -- the vertex itself is met first
      have hself : ∀ id ∈ (met c v.id).visited,
          id ∈ c.visited ∨ ∃ n < levels + 1, Near (q.Onward g) n v id := by
        intro id hid
        rcases List.mem_cons.mp hid with rfl | hid
        · exact .inr ⟨0, Nat.succ_pos levels, v, .here, rfl⟩
        · exact .inl hid
      rw [climb] at h
      split at h
      · cases h
        exact fun id hid => .inl hid
      · split at h
        · cases h
          exact hself
        · next htype =>
            obtain ⟨ws, hws, h⟩ := Outcome.bind_eq_ok.mp h
            have hmem := wf.mem_taggedNeighbours hws
            refine Outcome.foldlM_keeps (b := met c v.id)
              (P := fun c' => ∀ id ∈ c'.visited,
                id ∈ c.visited ∨ ∃ n < levels + 1, Near (q.Onward g) n v id)
              (fun w hw c₁ c₂ hcall hbefore id hid => ?_) h hself
            obtain ⟨hw, hhops⟩ := (hmem w).mp hw
            rcases ih hcall id hid with hid | ⟨n, hn, u, hsteps, hid⟩
            · exact hbefore id hid
            · exact .inr ⟨n + 1, Nat.succ_lt_succ hn, u, .step ⟨htype, hw, hhops⟩ hsteps, hid⟩

end Climb

/-- One start after another keeps what was found stored. -/
theorem Climb.stored_climb {g : Graph} (wf : g.WellFormed) {q : Climb} {levels : Nat} {v : Vertex}
    (hv : g.vertices.get? v.id = some v) {found found' : Table Vertex}
    (h : (do
      let c ← climb g q levels v { found }
      .ok c.found) = .ok found') (hfound : Climb.Stored g found) : Climb.Stored g found' := by
  obtain ⟨c, hclimb, h⟩ := Outcome.bind_eq_ok.mp h
  cases h
  exact (keeps_climb wf hv hclimb ⟨hfound, fun _ hid => hid⟩).1

/-- A search for top vertices that fails has gone along a chain longer than the
limit from one of its starts, which comes to no vertex twice before its last step. -/
theorem findTops_eq_error {g : Graph} (wf : g.WellFormed) {f : StartFilter} {q : Climb}
    {starts : List Vertex} (hstarts : f.starts g = .ok starts) {e : SearchError}
    (h : findTops g f q = .error e) :
    e = .maxLevelsExceeded q.maxLevels ∧ ∃ v ∈ starts, ∃ ws, (v :: ws).IsChain (q.Onward g) ∧
      ws.length = q.maxLevels + 1 ∧ ((v :: ws).dropLast.map (·.id)).Nodup := by
  have hstored := fun v => StartFilter.stored_of_starts (v := v) wf hstarts
  have h := Outcome.eq_error_of_bind hstarts h
  rcases Outcome.bind_eq_error.mp h with h | ⟨_, _, h⟩
  · obtain ⟨v, hv, found, hfound, hfail⟩ := Outcome.foldlM_eq_error (P := Climb.Stored g)
      (fun v hv => Climb.stored_climb wf (hstored v hv)) h (fun hf => by cases hf)
    rcases Outcome.bind_eq_error.mp hfail with hfail | ⟨_, _, hfail⟩
    · obtain ⟨he, ws, hchain, hlength, hfresh⟩ :=
        Climb.climb_eq_error wf (hstored v hv) hfound hfail
      exact ⟨he, v, hv, ws, hchain, hlength, hfresh.once⟩
    · cases hfail
  · cases h

/-- A search for top vertices that succeeds had all it may reach within the limit. -/
theorem near_findTops {g : Graph} (wf : g.WellFormed) {f : StartFilter} {q : Climb}
    {starts : List Vertex} (hstarts : f.starts g = .ok starts) {tops : List Vertex}
    (h : findTops g f q = .ok tops) {v w : Vertex} (hv : v ∈ starts) (hw : q.Reaches g v w) :
    Near (q.Onward g) q.maxLevels v w.id := by
  have hstored := fun v => StartFilter.stored_of_starts (v := v) wf hstarts
  obtain ⟨starts', hstarts', h⟩ := Outcome.bind_eq_ok.mp h
  rw [hstarts] at hstarts'
  cases hstarts'
  obtain ⟨_, hfold, -⟩ := Outcome.bind_eq_ok.mp h
  obtain ⟨found, _, hfound, hstep⟩ := Outcome.foldlM_steps_keeping (P := Climb.Stored g)
    (fun v hv => Climb.stored_climb wf (hstored v hv)) hfold (fun hf => by cases hf) hv
  obtain ⟨c, hclimb, -⟩ := Outcome.bind_eq_ok.mp hstep
  obtain ⟨hadds, hmet⟩ := Climb.adds_climb (D := fun _ => True) wf (fun _ _ => trivial)
    (hstored v hv) trivial hfound hclimb
  have hreached : w.id ∈ c.visited := hadds.met_of_reaches (hstored v hv) hmet hw
  rcases Climb.near_climb wf hclimb w.id hreached with hnone | ⟨n, hn, u, hsteps, hid⟩
  · cases hnone
  · exact ⟨u, hsteps.mono (Nat.le_of_lt_succ hn), hid⟩

/-! ## Collections -/

namespace CollectOptions

variable {o : CollectOptions} {g : Graph}

/-- Calls for neighbours fail at one that is not trimmed and was not met. -/
theorem gatherEach_eq_error
    {visit : Vertex → Trail → List VertexId → SearchOutcome (ResultTree × List VertexId)}
    {trail : Trail}
    (hvisit : ∀ {w trail met t met'}, w.id ∉ met → visit w trail met = .ok (t, met') →
      ∀ id ∈ met, id ∈ met')
    {ws : List Vertex} {met : List VertexId} {e : SearchError}
    (h : gatherEach visit o trail ws met = .error e) :
    ∃ w ∈ ws, o.trims w = false ∧ ∃ trail met', (∀ id ∈ met, id ∈ met') ∧ w.id ∉ met' ∧
      visit w trail met' = .error e := by
  induction ws generalizing met with
  | nil => cases h
  | cons w ws ih =>
      rw [gatherEach] at h
      split at h
      · obtain ⟨u, hu, hfail⟩ := ih h
        exact ⟨u, List.mem_cons_of_mem _ hu, hfail⟩
      · next hgo =>
          rw [not_or, Bool.not_eq_true] at hgo
          rcases Outcome.bind_eq_error.mp h with h | ⟨⟨t, met₁⟩, hfirst, h⟩
          · exact ⟨w, List.mem_cons_self, hgo.2, _, met, fun _ hid => hid, hgo.1, h⟩
          · rcases Outcome.bind_eq_error.mp h with h | ⟨_, _, h⟩
            · obtain ⟨u, hu, htrim, trail', met', hkeeps, hfresh, hfail⟩ := ih h
              exact ⟨u, List.mem_cons_of_mem _ hu, htrim, trail', met',
                fun id hid => hkeeps id (hvisit hgo.1 hfirst id hid), hfresh, hfail⟩
            · cases h

/-- A collection that fails has gone along a chain as long as its levels, over
vertices that it had not met. -/
theorem gather_eq_error (wf : g.WellFormed) {levels : Nat} {v : Vertex} {trail : Trail}
    {met : List VertexId} {e : SearchError} (hv : g.contains v.id = true) (hnew : v.id ∉ met)
    (h : gather g o levels v trail met = .error e) :
    e = .maxLevelsExceeded o.maxLevels ∧ ∃ ws, (v :: ws).IsChain (o.Onward g) ∧
      ws.length = levels ∧ Fresh met (v :: ws) := by
  induction levels generalizing v trail met with
  | zero =>
      cases h
      exact ⟨rfl, [], .singleton v, rfl, .cons hnew (fun _ hid => hid) (.nil _)⟩
  | succ levels ih =>
      rw [gather] at h
      dsimp only at h
      split at h
      · cases h
      · next hopen =>
          obtain ⟨ws, hws⟩ := wf.taggedNeighbours_total hv o.tag o.direction
          have h := Outcome.eq_error_of_bind hws h
          have hmem := wf.mem_taggedNeighbours hws
          rcases Outcome.bind_eq_error.mp h with h | ⟨_, _, h⟩
          · obtain ⟨w, hw, htrim, trail', met', hkeeps, hunmet, hfail⟩ :=
              gatherEach_eq_error (fun hnew hcall id hid =>
                ((builds_gather wf hnew hcall).adds.met_iff id).mpr (.inl hid)) h
            obtain ⟨hw, hhops⟩ := (hmem w).mp hw
            obtain ⟨he, rest, hchain, hlength, hfresh⟩ :=
              ih (Graph.contains_iff.mpr ⟨w, hw⟩) hunmet hfail
            exact ⟨he, w :: rest,
              .cons_cons ⟨Bool.eq_false_iff.mpr hopen, htrim, hw, hhops⟩ hchain,
              congrArg (· + 1) hlength, hfresh.cons hnew hkeeps⟩
          · cases h

/-- A vertex of a grown tree is as many steps from the top as it is deep. -/
theorem Grown.inSteps {levels : Nat} {met : List VertexId} {t : ResultTree}
    (h : o.Grown g levels met t) {d : Nat} {s : ResultTree} (hs : t.At d s) :
    InSteps (o.Onward g) d t.top.vertex s.top.vertex := by
  induction d generalizing s with
  | zero =>
      cases hs
      exact .here
  | succ d ih =>
      obtain ⟨p, hp, hc⟩ := hs.parent
      exact (ih hp).tail (h.child hp s hc).1

end CollectOptions

/-- A collection that succeeds had all it may reach within the limit. -/
theorem near_collectTagged {g : Graph} (wf : g.WellFormed) {v : Vertex} {o : CollectOptions}
    {t : ResultTree} (h : collectTagged g v o = .ok t) {w : Vertex} (hw : o.Reaches g v w) :
    Near (o.Onward g) o.maxLevels v w.id := by
  obtain ⟨⟨t, met⟩, hgather, h⟩ := Outcome.bind_eq_ok.mp h
  cases h
  have hbuilds := CollectOptions.builds_gather wf List.not_mem_nil hgather
  have hgrown := hbuilds.grown_alone
  obtain rfl := hbuilds.vertex
  obtain ⟨d, s, hs, hid⟩ := ResultTree.mem_ids.mp (hgrown.mem_ids_of_reaches hw).1
  exact ⟨_, (hgrown.inSteps hs).mono (Nat.le_of_lt_succ (hgrown.deep hs)), hid⟩

/-- A collection below a stored vertex that fails has gone along a chain longer
than the limit. -/
theorem collectTagged_eq_error {g : Graph} (wf : g.WellFormed) {v : Vertex} {o : CollectOptions}
    (hv : g.contains v.id = true) {e : SearchError} (h : collectTagged g v o = .error e) :
    e = .maxLevelsExceeded o.maxLevels ∧ HasPath (o.Onward g) (o.maxLevels + 1) v := by
  rcases Outcome.bind_eq_error.mp h with h | ⟨_, -, h⟩
  · obtain ⟨he, ws, hchain, hlength, hfresh⟩ :=
      CollectOptions.gather_eq_error wf hv List.not_mem_nil h
    exact ⟨he, ws, hchain, hlength, hfresh.once⟩
  · cases h

/-- Only below a stored vertex are there levels to exceed. -/
theorem contains_of_exceeds {g : Graph} (wf : g.WellFormed) {v : Vertex} {o : CollectOptions}
    {n : Nat} (h : collectTagged g v o = .error (.maxLevelsExceeded n)) :
    g.contains v.id = true := by
  rcases Outcome.bind_eq_error.mp h with h | ⟨_, -, h⟩
  · rw [gather] at h
    dsimp only at h
    split at h
    · cases h
    · rcases Outcome.bind_eq_error.mp h with h | ⟨ws, hws, -⟩
      · obtain ⟨e, he⟩ := Graph.taggedNeighbours_eq_error h
        cases he
      · exact wf.contains_of_taggedNeighbours hws
  · cases h

/-! ## The limit -/

/-- What lies farther off than the limit makes a search for top vertices fail,
and where no chain turns back at the limit nothing makes it fail but a chain that
is longer. -/
theorem findTops_exceeds {g : Graph} (wf : g.WellFormed) {f : StartFilter} {q : Climb}
    {starts : List Vertex} (hstarts : f.starts g = .ok starts) :
    ((∃ v ∈ starts, ∃ w, q.Reaches g v w ∧ ¬ Near (q.Onward g) q.maxLevels v w.id) →
        findTops g f q = .error (.maxLevelsExceeded q.maxLevels)) ∧
      ∀ e, findTops g f q = .error e → e = .maxLevelsExceeded q.maxLevels ∧
        ((∀ v ∈ starts, ¬ TurnsBack (q.Onward g) q.maxLevels v) →
          ∃ v ∈ starts, HasPath (q.Onward g) (q.maxLevels + 1) v) := by
  constructor
  · rintro ⟨v, hv, w, hw, hfar⟩
    cases hrun : findTops g f q with
    | ok tops => exact absurd (near_findTops wf hstarts hrun hv hw) hfar
    | error e => rw [(findTops_eq_error wf hstarts hrun).1]
  · intro e hrun
    obtain ⟨he, v, hv, ws, hchain, hlength, honce⟩ := findTops_eq_error wf hstarts hrun
    exact ⟨he, fun hback =>
      ⟨v, hv, hasPath_of_not_turnsBack (hback v hv) hchain hlength honce⟩⟩

/-- What lies farther off than the limit makes a collection fail, and nothing
makes it exceed the limit but a chain that is longer. -/
theorem collectTagged_exceeds {g : Graph} (wf : g.WellFormed) (v : Vertex) (o : CollectOptions) :
    ((∃ w, o.Reaches g v w ∧ ¬ Near (o.Onward g) o.maxLevels v w.id) →
        collectTagged g v o = .error (.maxLevelsExceeded o.maxLevels)) ∧
      ∀ n, collectTagged g v o = .error (.maxLevelsExceeded n) →
        n = o.maxLevels ∧ HasPath (o.Onward g) (o.maxLevels + 1) v := by
  constructor
  · rintro ⟨w, hw, hfar⟩
    cases hrun : collectTagged g v o with
    | ok t => exact absurd (near_collectTagged wf hrun hw) hfar
    | error e =>
        -- what is beyond the limit is not the vertex itself, which so leads on
        rcases hw.cases_head with rfl | ⟨u, hu, -⟩
        · exact absurd ⟨v, .here, rfl⟩ hfar
        · rw [(collectTagged_eq_error wf (wf.contains_of_hops hu.hops) hrun).1]
  · intro n hrun
    obtain ⟨he, hpath⟩ := collectTagged_eq_error wf (contains_of_exceeds wf hrun) hrun
    cases he
    exact ⟨rfl, hpath⟩

/-- **What the level limit measures.** On every reachable graph a search exceeds
its limit when some vertex that it may reach is more hops away, and only when
some chain of hops that comes to no vertex twice has more hops; of a search for
top vertices the latter is said where no chain turns back at the limit. Such a
search has no other failure once it has start vertices. -/
theorem exceeds_maxLevels {g : Graph} (hg : g.Reachable) :
    (∀ (f : StartFilter) (q : Climb) (starts : List Vertex), f.starts g = .ok starts →
      ((∃ v ∈ starts, ∃ w, q.Reaches g v w ∧ ¬ Near (q.Onward g) q.maxLevels v w.id) →
          findTops g f q = .error (.maxLevelsExceeded q.maxLevels)) ∧
        ∀ e, findTops g f q = .error e → e = .maxLevelsExceeded q.maxLevels ∧
          ((∀ v ∈ starts, ¬ TurnsBack (q.Onward g) q.maxLevels v) →
            ∃ v ∈ starts, HasPath (q.Onward g) (q.maxLevels + 1) v)) ∧
    ∀ (top : Vertex) (o : CollectOptions),
      ((∃ w, o.Reaches g top w ∧ ¬ Near (o.Onward g) o.maxLevels top w.id) →
          collectTagged g top o = .error (.maxLevelsExceeded o.maxLevels)) ∧
        ∀ n, collectTagged g top o = .error (.maxLevelsExceeded n) →
          n = o.maxLevels ∧ HasPath (o.Onward g) (o.maxLevels + 1) top :=
  ⟨fun _ _ _ hstarts => findTops_exceeds hg.wellFormed hstarts, collectTagged_exceeds hg.wellFormed⟩

namespace Search

/-! ### A node two hops away -/

def app : Vertex := ⟨"app", "app", ∅⟩

def firstNode : Vertex := ⟨"m", "node", ∅⟩

def secondNode : Vertex := ⟨"n", "node", ∅⟩

/-- Only what is one hop away. -/
def oneHop : Climb := { toSites with maxLevels := 1 }

/-- The vertices one hop below. -/
def belowOnce : CollectOptions := ⟨"up", .outgoing, 1, [], none⟩

/-- The second node of the ring is two hops away, so that neither search
succeeds with one hop. -/
theorem exceeds_maxLevels_sites :
    sites.Reachable ∧ StartFilter.starts sites ⟨"app", []⟩ = .ok [app] ∧
      findTops sites ⟨"app", []⟩ oneHop = .error (.maxLevelsExceeded 1) ∧
      ¬ TurnsBack (oneHop.Onward sites) 1 app ∧ HasPath (oneHop.Onward sites) 2 app ∧
      collectTagged sites app belowOnce = .error (.maxLevelsExceeded 1) ∧
      HasPath (belowOnce.Onward sites) 2 app := by
  have hg : sites.Reachable :=
    Graph.reachable_ofParts (show Graph.ofParts siteVertices siteEdges = .ok sites from rfl)
  have hstarts : StartFilter.starts sites ⟨"app", []⟩ = .ok [app] := by rfl
  have happ : taggedNeighbours sites "app" "up" .outgoing = .ok [firstNode] := by rfl
  have hnode : taggedNeighbours sites "m" "up" .outgoing = .ok [secondNode] := by rfl
  have hfrom := hg.wellFormed.mem_taggedNeighbours happ
  obtain ⟨hm, hto⟩ := (hfrom firstNode).mp List.mem_cons_self
  have honward := hg.wellFormed.mem_taggedNeighbours hnode
  obtain ⟨hn, hon⟩ := (honward secondNode).mp List.mem_cons_self
  -- one hop leads to the first node alone, whatever kind of search it is
  have hfar : ∀ {R : Vertex → Vertex → Prop},
      (∀ {w}, R app w → sites.vertices.get? w.id = some w ∧ sites.Hops "up" .outgoing "app" w.id) →
        ¬ Near R 1 app "n" := by
    rintro R hR ⟨w, hsteps, hid⟩
    cases hsteps with
    | here => exact absurd hid (by decide)
    | step hr hrest =>
        cases hrest
        obtain rfl := List.mem_singleton.mp ((hfrom w).mpr (hR hr))
        exact absurd hid (by decide)
  obtain ⟨hfails, hlong⟩ := (exceeds_maxLevels hg).1 ⟨"app", []⟩ oneHop [app] hstarts
  obtain ⟨hfails', hlong'⟩ := (exceeds_maxLevels hg).2 app belowOnce
  have hrun := hfails ⟨app, List.mem_cons_self, secondNode,
    .tail (.single ⟨by decide, hm, hto⟩) ⟨by decide, hn, hon⟩, hfar fun h => ⟨h.stored, h.hops⟩⟩
  have hrun' := hfails' ⟨secondNode,
    .tail (.single ⟨rfl, rfl, hm, hto⟩) ⟨rfl, rfl, hn, hon⟩, hfar fun h => ⟨h.stored, h.hops⟩⟩
  -- from the first node on there is only the second one
  have hback : ¬ TurnsBack (oneHop.Onward sites) 1 app := by
    rintro ⟨ws, w, hchain, hlength, -, hmem⟩
    obtain ⟨u, rfl⟩ := List.length_eq_one_iff.mp hlength
    obtain ⟨hu, hw⟩ := List.isChain_cons_cons.mp hchain
    obtain rfl := List.mem_singleton.mp ((hfrom u).mpr ⟨hu.stored, hu.hops⟩)
    have hw := (List.isChain_cons_cons.mp hw).1
    obtain rfl := List.mem_singleton.mp ((honward w).mpr ⟨hw.stored, hw.hops⟩)
    exact absurd hmem (by decide)
  obtain ⟨-, hlong⟩ := hlong _ hrun
  obtain ⟨v, hv, hlong⟩ := hlong fun v hv => List.mem_singleton.mp hv ▸ hback
  obtain rfl := List.mem_singleton.mp hv
  exact ⟨hg, hstarts, hrun, hback, hlong, hrun', (hlong' _ hrun').2⟩

/-! ### A detour -/

def detourVertices : List Vertex :=
  [app, firstNode, secondNode, ⟨"t", "site", ∅⟩]

/-- The longer way to the second node. -/
def longWay : List Edge :=
  [Edge.withTag ⟨"1", "app", "m", "runs-on", ∅⟩ "up", Edge.withTag ⟨"3", "m", "n", "link", ∅⟩ "up"]

/-- The shorter way to it, and the way on. -/
def shortWay : List Edge :=
  [Edge.withTag ⟨"2", "app", "n", "runs-on", ∅⟩ "up", Edge.withTag ⟨"4", "n", "t", "in", ∅⟩ "up"]

def detour : Graph := (Graph.ofParts detourVertices (longWay ++ shortWay)).toOption.getD .empty

/-- Only what is two hops away. -/
def twoHops : Climb := { toSites with maxLevels := 2 }

/-- The vertices up to two hops below. -/
def belowTwice : CollectOptions := ⟨"up", .outgoing, 2, [], none⟩

/-- Every vertex of the graph is within two hops of the start. -/
theorem inSteps_detour {w : Vertex} (hw : detour.vertices.get? w.id = some w) :
    InSteps (twoHops.Onward detour) 2 app w := by
  have hedge : ∀ e ∈ longWay ++ shortWay, detour.edges.get? e.id = some e ∧
      e.hasTag "up" = true := by decide
  have honward : ∀ {u v : Vertex}, (∃ e ∈ longWay ++ shortWay, e.outId = u.id ∧ e.inId = v.id) →
      u.nodeType ≠ "site" → detour.vertices.get? v.id = some v → twoHops.Onward detour u v := by
    rintro u v ⟨e, he, hends⟩ hu hv
    exact ⟨hu, hv, e, (hedge e he).1, .inl ⟨(hedge e he).2, hends⟩⟩
  have hmem : w ∈ detourVertices := Table.mem_values.mpr ⟨w.id, hw⟩
  have hsecond : InSteps (twoHops.Onward detour) 1 app secondNode :=
    .step (honward (by decide) (by decide) (by rfl)) .here
  simp only [detourVertices, List.mem_cons, List.not_mem_nil, or_false] at hmem
  rcases hmem with rfl | rfl | rfl | rfl
  · exact .here
  · exact .step (honward (by decide) (by decide) hw) .here
  · exact hsecond.mono (by decide)
  · exact hsecond.tail (honward (by decide) (by decide) hw)

/-- Both searches fail although all that they may reach is within two hops, as
the edges that were added first lead the longer way to the site; with those of
the shorter way added first it is found. -/
theorem exceeds_within_levels :
    detour.Reachable ∧ StartFilter.starts detour ⟨"app", []⟩ = .ok [app] ∧
      findTops detour ⟨"app", []⟩ twoHops = .error (.maxLevelsExceeded 2) ∧
      (∀ w, twoHops.Reaches detour app w → Near (twoHops.Onward detour) 2 app w.id) ∧
      collectTagged detour app belowTwice = .error (.maxLevelsExceeded 2) ∧
      (∀ w, belowTwice.Reaches detour app w → Near (belowTwice.Onward detour) 2 app w.id) ∧
      ∃ g, Graph.ofParts detourVertices (shortWay ++ longWay) = .ok g ∧
        g.vertices = detour.vertices ∧ g.edges = detour.edges ∧
        findTops g ⟨"app", []⟩ twoHops = .ok [⟨"t", "site", ∅⟩] := by
  have hg : detour.Reachable := Graph.reachable_ofParts
    (show Graph.ofParts detourVertices (longWay ++ shortWay) = .ok detour from rfl)
  have happ : detour.vertices.get? app.id = some app := by rfl
  refine ⟨hg, by rfl, by rfl, fun w hw => ?_, by rfl, fun w hw => ?_,
    _, rfl, by rfl, by rfl, by rfl⟩
  · exact ⟨w, inSteps_detour (hw.stored happ), rfl⟩
  · have hstored : detour.vertices.get? w.id = some w := by
      cases hw with
      | refl => exact happ
      | tail _ hw => exact hw.stored
    -- nothing is trimmed or pruned, so that a collection makes every step of a climb
    exact ⟨w, (inSteps_detour hstored).imp fun h => ⟨rfl, rfl, h.stored, h.hops⟩, rfl⟩

end Search

end Inventory
