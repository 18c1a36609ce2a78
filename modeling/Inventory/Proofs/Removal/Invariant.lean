import Inventory.Removal.Pass
import Inventory.Proofs.Graph.Reachable
import Inventory.Proofs.Rule.Dependence

/-!
# Removal — what a delete pass keeps

A pass is compared with the graph `g` it started on. `DeletePass.Sound` says
what is true of every state of a pass, `DeletePass.Ready` with what a call may
be made, and `DeletePass.Deals` what calls one after another do. The step lemma
is `DeletePass.remove_spec`; `DeletePass.deals_removeAll` is the run lemma.

The invariant carries the cascade across vanished edges. An edge that a pass
has lost is listed at a removed vertex. Such a vertex is an end of the edge,
and then that end has been dealt with, or it is not, and the edge was misfiled.
-/

namespace Inventory

/-! ## Dependence between vertices -/

namespace Graph

/-- A vertex depends on another when an edge, either way, joins them and the
rules make its type dependent on the other's. -/
def Depends (g : Graph) (rules : RuleTable) (v w : VertexId) : Prop :=
  ∃ a b, g.vertices.get? v = some a ∧ g.vertices.get? w = some b ∧
    g.Adjacent v w ∧ rules.isDependent a.nodeType b.nodeType = true

/-- Every edge between two vertices is misfiled at some vertex of a kind. -/
def CutOff (g : Graph) (gone : VertexId → Prop) (v w : VertexId) : Prop :=
  ∀ e, g.edges.get? e.id = some e → e.Joins v w → ∃ x, gone x ∧ g.Misfiled e x

theorem CutOff.mono {g : Graph} {gone gone' : VertexId → Prop} {v w : VertexId}
    (h : g.CutOff gone v w) (hgone : ∀ {x}, gone x → gone' x) : g.CutOff gone' v w := by
  intro e he hj
  obtain ⟨x, hx, hm⟩ := h e he hj
  exact ⟨x, hgone hx, hm⟩

end Graph

namespace DeletePass

/-! ## States of a pass -/

/-- Whether a pass has removed a vertex. -/
def Gone (p : DeletePass) (id : VertexId) : Prop := p.removed.contains id = true

/-- What holds of every state of a pass that started on `g` and may remove the
vertices of `D`. -/
structure Sound (g : Graph) (rules : RuleTable) (D : VertexId → Prop) (p : DeletePass) :
    Prop where
  wf : p.graph.WellFormed
  allowed : ∀ {id}, p.Gone id → D id
  processed : ∀ {id}, p.Gone id → id ∈ p.processed
  described : ∀ {id text}, p.removed.get? id = some text →
    ∃ v, g.vertices.get? id = some v ∧ text = v.described
  gone : ∀ {id}, p.Gone id → p.graph.vertices.get? id = none
  stays : ∀ {id}, ¬ p.Gone id → p.graph.vertices.get? id = g.vertices.get? id
  edge_of : ∀ {i e}, p.graph.edges.get? i = some e → g.edges.get? i = some e
  listed_of : ∀ {x i}, i ∈ p.graph.listed x → i ∈ g.listed x
  lost : ∀ {i e}, g.edges.get? i = some e → p.graph.edges.get? i = none →
    ∃ x, p.Gone x ∧ i ∈ g.listed x
  closed : ∀ {v w}, p.Gone v → g.Depends rules v w →
    w ∈ p.processed ∨ g.CutOff p.Gone v w

/-- What calls of `remove` do to the vertices dealt with: they deal with more,
and what they newly deal with is removed when it was there. -/
structure Advances (g : Graph) (p p' : DeletePass) : Prop where
  processed : ∀ {id}, id ∈ p.processed → id ∈ p'.processed
  gone : ∀ {id}, p.Gone id → p'.Gone id
  fresh : ∀ {id}, p'.Gone id → p.Gone id ∨ id ∉ p.processed
  done : ∀ {id}, id ∈ p'.processed → g.contains id = true →
    p'.Gone id ∨ (id ∈ p.processed ∧ ¬ p.Gone id)

theorem Advances.refl (g : Graph) (p : DeletePass) : Advances g p p where
  processed h := h
  gone h := h
  fresh := .inl
  done {id} h _ := by
    by_cases hg : p.Gone id
    · exact .inl hg
    · exact .inr ⟨h, hg⟩

theorem Advances.trans {g : Graph} {p p' p'' : DeletePass} (h : Advances g p p')
    (h' : Advances g p' p'') : Advances g p p'' where
  processed hid := h'.processed (h.processed hid)
  gone hid := h'.gone (h.gone hid)
  fresh hid := by
    rcases h'.fresh hid with hid | hid
    · exact h.fresh hid
    · exact .inr fun hp => hid (h.processed hp)
  done hid hg := by
    rcases h'.done hid hg with hid | ⟨hid, hn⟩
    · exact .inl hid
    · rcases h.done hid hg with hid | hid
      · exact absurd hid hn
      · exact .inr hid

theorem sound_start {g : Graph} (wf : g.WellFormed) (rules : RuleTable)
    (D : VertexId → Prop) : Sound g rules D { graph := g } where
  wf := wf
  allowed h := by cases h
  processed h := by cases h
  described h := by cases h
  gone h := by cases h
  stays _ := rfl
  edge_of h := h
  listed_of h := h
  lost h h' := by rw [h] at h'; cases h'
  closed h := by cases h

/-- What a pass still holds is what it started with. -/
theorem Sound.stored {g : Graph} {rules : RuleTable} {D : VertexId → Prop} {p : DeletePass}
    (hs : Sound g rules D p) {id : VertexId} {v : Vertex}
    (hv : p.graph.vertices.get? id = some v) : g.vertices.get? id = some v := by
  by_cases hgone : p.Gone id
  · rw [hs.gone hgone] at hv
    cases hv
  · exact (hs.stays hgone).symm.trans hv

/-! ## The vertices a pass may still meet -/

/-- How many vertices of `g` a pass has not dealt with. -/
def unprocessed (g : Graph) (p : DeletePass) : Nat :=
  (g.vertices.keys.filter (· ∉ p.processed)).length

theorem unprocessed_le (g : Graph) (p : DeletePass) : unprocessed g p ≤ g.vertexCount := by
  have : g.vertices.keys.length = g.vertexCount := List.length_map ..
  exact this ▸ List.length_filter_le _ _

theorem length_filter_le {ks is js : List VertexId} (h : ∀ {i}, i ∈ is → i ∈ js) :
    (ks.filter (· ∉ js)).length ≤ (ks.filter (· ∉ is)).length := by
  apply List.Sublist.length_le
  apply List.monotone_filter_right
  intro k
  simpa using fun hk hi => hk (h hi)

theorem Advances.unprocessed_le {g : Graph} {p p' : DeletePass} (h : Advances g p p') :
    unprocessed g p' ≤ unprocessed g p :=
  length_filter_le h.processed

/-- Dealing with a vertex of the graph leaves fewer. -/
theorem unprocessed_cons_lt {g : Graph} {p : DeletePass} {id : VertexId} {v : Vertex}
    (hv : g.vertices.get? id = some v) (hid : id ∉ p.processed) :
    unprocessed g { p with processed := id :: p.processed } < unprocessed g p := by
  have hmem : id ∈ g.vertices.keys := Table.mem_keys.mpr (Graph.contains_iff.mpr ⟨v, hv⟩)
  unfold unprocessed
  generalize g.vertices.keys = ks at hmem
  induction ks with
  | nil => cases hmem
  | cons k ks ih =>
      have hle : (ks.filter (· ∉ id :: p.processed)).length
          ≤ (ks.filter (· ∉ p.processed)).length :=
        length_filter_le fun hi => List.mem_cons_of_mem _ hi
      by_cases hk : k = id
      · subst hk
        simp only [List.mem_cons, true_or, not_true_eq_false, decide_false, Bool.false_eq_true,
          not_false_eq_true, List.filter_cons_of_neg, hid, decide_true, List.filter_cons_of_pos,
          List.length_cons] at hle ⊢
        omega
      · have := ih (by simpa [Ne.symm hk] using hmem)
        by_cases hp : k ∈ p.processed
        · simpa [hp, hk] using this
        · simp only [List.mem_cons, hk, hp, or_self, not_false_eq_true, decide_true,
            List.filter_cons_of_pos, List.length_cons] at this ⊢
          omega

/-! ## Calls -/

/-- The pass after a vertex has been taken up. -/
def see (p : DeletePass) (id : VertexId) : DeletePass :=
  { p with processed := id :: p.processed }

/-- The pass after a vertex has been removed, with the graph that is left. -/
def take (p : DeletePass) (g : Graph) (id : VertexId) (text : String) : DeletePass :=
  { p with graph := g, removed := p.removed.put id text }

/-- The neighbours that a call deals with before it removes its vertex: those,
over any edge, whose types depend on the vertex's type. -/
def dependents (rules : RuleTable) (g : Graph) (id : VertexId) (v : Vertex) :
    Outcome (List Vertex) :=
  (if (rules.dependentTypes v.nodeType).isEmpty then .ok [] else g.adjacent id .both .any) >>=
    fun ws => .ok (ws.filter fun w => (rules.dependentTypes v.nodeType).contains w.nodeType)

/-- The pass after calls one after another. -/
def removeAll (rules : RuleTable) (fuel : Nat) (ids : List VertexId) (p : DeletePass) :
    DeletePass :=
  ids.foldl (fun p id => (remove rules fuel id p).2) p

section

variable {rules : RuleTable} {fuel : Nat} {id : VertexId} {p : DeletePass}

theorem remove_seen (hid : id ∈ p.processed) : remove rules (fuel + 1) id p = (.ok (), p) := by
  rw [remove, if_pos hid]

theorem remove_absent (hid : id ∉ p.processed) (hv : p.graph.vertices.get? id = none) :
    remove rules (fuel + 1) id p = (.ok (), p.see id) := by
  rw [remove, if_neg hid]
  simp only [hv, see]

theorem remove_present (hid : id ∉ p.processed) {v w : Vertex} {ws : List Vertex} {g : Graph}
    (hv : p.graph.vertices.get? id = some v) (hws : dependents rules p.graph id v = .ok ws)
    (hrem : (removeAll rules fuel (ws.map (·.id)) (p.see id)).graph.removeVertex id = .ok (w, g)) :
    remove rules (fuel + 1) id p =
      (.ok (), (removeAll rules fuel (ws.map (·.id)) (p.see id)).take g w.id w.described) := by
  obtain ⟨ns, hns, hfilter⟩ := Outcome.bind_eq_ok.mp hws
  cases hfilter
  rw [removeAll, List.foldl_map, see] at hrem
  rw [remove, if_neg hid]
  simp only [hv, hns, hrem]
  rw [removeAll, List.foldl_map, see, take]

end

/-! ## One call -/

section

variable {g : Graph} {rules : RuleTable} {D : VertexId → Prop}

/-- Another vertex, on which this one depends, has been removed. -/
def Caused (g : Graph) (rules : RuleTable) (p : DeletePass) (w : VertexId) : Prop :=
  ∃ v, v ≠ w ∧ p.Gone v ∧ g.Depends rules v w

/-- What a call for a vertex relies on. -/
structure Ready (g : Graph) (rules : RuleTable) (D : VertexId → Prop) (fuel : Nat)
    (id : VertexId) (p : DeletePass) : Prop where
  sound : Sound g rules D p
  allowed : g.contains id = true → D id
  fueled : unprocessed g p < fuel

/-- What calls for vertices, one after another, do to a pass. -/
structure Deals (g : Graph) (rules : RuleTable) (D : VertexId → Prop) (ids : List VertexId)
    (p q : DeletePass) : Prop where
  sound : Sound g rules D q
  advances : Advances g p q
  dealt : ∀ {id}, id ∈ ids → id ∈ q.processed
  /-- What goes was called for, or goes because of another vertex. -/
  traced : ∀ {w}, q.Gone w → p.Gone w ∨ w ∈ ids ∨ q.Caused g rules w

theorem Caused.mono {p q : DeletePass} {w : VertexId} (h : p.Caused g rules w)
    (hpq : Advances g p q) : q.Caused g rules w := by
  obtain ⟨v, hne, hv, hd⟩ := h
  exact ⟨v, hne, hpq.gone hv, hd⟩

theorem Ready.later {fuel : Nat} {id : VertexId} {ids : List VertexId} {p q : DeletePass}
    (h : Ready g rules D fuel id p) (hpq : Deals g rules D ids p q) :
    Ready g rules D fuel id q where
  sound := hpq.sound
  allowed := h.allowed
  fueled := Nat.lt_of_le_of_lt hpq.advances.unprocessed_le h.fueled

theorem Deals.nil {p : DeletePass} (hs : Sound g rules D p) : Deals g rules D [] p p where
  sound := hs
  advances := .refl g p
  dealt h := by cases h
  traced := .inl

theorem Deals.cons {id : VertexId} {ids : List VertexId} {p q r : DeletePass}
    (h : Deals g rules D [id] p q) (h' : Deals g rules D ids q r) :
    Deals g rules D (id :: ids) p r where
  sound := h'.sound
  advances := h.advances.trans h'.advances
  dealt hx := by
    rcases List.mem_cons.mp hx with rfl | hx
    · exact h'.advances.processed (h.dealt (by simp))
    · exact h'.dealt hx
  traced hw := by
    rcases h'.traced hw with hw | hw | hw
    · rcases h.traced hw with hw | hw | hw
      · exact .inl hw
      · exact .inr (.inl (List.mem_cons.mpr (.inl (List.mem_singleton.mp hw))))
      · exact .inr (.inr (hw.mono h'.advances))
    · exact .inr (.inl (List.mem_cons_of_mem _ hw))
    · exact .inr (.inr hw)

theorem gone_take {p : DeletePass} {g : Graph} {id : VertexId} {text : String}
    {x : VertexId} : (p.take g id text).Gone x ↔ x = id ∨ p.Gone x := by
  unfold Gone take Table.contains
  rw [Table.get?_put]
  split
  · next h => simp [h]
  · next h => simp [h]

theorem Sound.see {p : DeletePass} (hs : Sound g rules D p) (id : VertexId) :
    Sound g rules D (p.see id) :=
  { hs with
    processed := fun h => List.mem_cons_of_mem _ (hs.processed h)
    closed := fun hv hd => (hs.closed hv hd).imp_left (List.mem_cons_of_mem _) }

theorem advances_see_absent {p : DeletePass} (hs : Sound g rules D p) {id : VertexId}
    (hid : id ∉ p.processed) (hv : p.graph.vertices.get? id = none) :
    Advances g p (p.see id) where
  processed h := List.mem_cons_of_mem _ h
  gone h := h
  fresh := .inl
  done {x} hx hg := by
    rcases List.mem_cons.mp hx with rfl | hx
    · obtain ⟨v, hgv⟩ := Graph.contains_iff.mp hg
      have hnot : ¬ p.Gone x := fun h => hid (hs.processed h)
      rw [hs.stays hnot, hgv] at hv
      cases hv
    · exact (Advances.refl g p).done hx hg

/-- A dependent that no edge of the pass's graph joins to a vertex has been
dealt with or is cut off. -/
theorem Sound.cutOff {p : DeletePass} (hs : Sound g rules D p) {id w : VertexId}
    (hid : id ∉ p.processed)
    (hnone : ∀ e, p.graph.edges.get? e.id = some e → ¬ e.Joins id w) :
    w ∈ p.processed ∨ g.CutOff p.Gone id w := by
  by_cases hw : w ∈ p.processed
  · exact .inl hw
  · refine .inr fun e he hj => ?_
    have hlost : p.graph.edges.get? e.id = none := by
      cases h : p.graph.edges.get? e.id with
      | none => rfl
      | some e' =>
          have : e' = e := Option.some.inj ((hs.edge_of h).symm.trans he)
          exact absurd hj (hnone e (this ▸ h))
    obtain ⟨x, hx, hl⟩ := hs.lost he hlost
    refine ⟨x, hx, he, hl, ?_⟩
    -- a removed end would have been dealt with
    cases ht : e.touches x
    · rfl
    · have hend : x = id ∨ x = w := by
        rcases Edge.touches_iff.mp ht with h | h <;> rcases hj with ⟨h₁, h₂⟩ | ⟨h₁, h₂⟩ <;>
          simp_all
      rcases hend with rfl | rfl
      · exact absurd (hs.processed hx) hid
      · exact absurd (hs.processed hx) hw

/-- The removal itself keeps the invariant, once the dependents that an edge
joined to the vertex have been dealt with. -/
theorem Sound.take {p q : DeletePass} {id : VertexId} (hp : Sound g rules D p)
    (hq : Sound g rules D q) (hpq : Advances g (p.see id) q) {v : Vertex} {g' : Graph}
    (hid : id ∉ p.processed) (hD : D id) (hv : q.graph.vertices.get? id = some v)
    (hrem : q.graph.removeVertex id = .ok (v, g'))
    (hdeps : ∀ w, g.Depends rules id w →
      (∃ e, p.graph.edges.get? e.id = some e ∧ e.Joins id w) → w ∈ q.processed) :
    Sound g rules D (q.take g' id v.described) := by
  have hnot : ¬ q.Gone id := fun h => by
    rw [hq.gone h] at hv
    cases hv
  obtain ⟨g₁, h₁, hvs, hes, _, hls⟩ := Graph.removeVertex_spec hv
  rw [hrem] at h₁
  cases h₁
  have hgone : ∀ {x}, q.Gone x → (q.take g' id v.described).Gone x :=
    fun hx => gone_take.mpr (.inr hx)
  exact {
    wf := hq.wf.removeVertex hrem
    allowed := fun hx => by
      rcases gone_take.mp hx with rfl | hx
      · exact hD
      · exact hq.allowed hx
    processed := fun hx => by
      rcases gone_take.mp hx with rfl | hx
      · exact hpq.processed (List.mem_cons_self ..)
      · exact hq.processed hx
    described := fun {x text} hx => by
      simp only [DeletePass.take, Table.get?_put] at hx
      split at hx
      · next heq =>
          cases hx
          rw [hq.stays hnot] at hv
          exact ⟨v, heq ▸ hv, rfl⟩
      · exact hq.described hx
    gone := fun {x} hx => by
      rw [DeletePass.take, hvs]
      rcases gone_take.mp hx with rfl | hx
      · simp
      · simp [hq.gone hx]
    stays := fun {x} hx => by
      rw [DeletePass.take, hvs, if_neg fun h => hx (gone_take.mpr (.inl h))]
      exact hq.stays fun h => hx (gone_take.mpr (.inr h))
    edge_of := fun {i e} hi => by
      rw [DeletePass.take, hes] at hi
      split at hi
      · cases hi
      · exact hq.edge_of hi
    listed_of := fun h => hq.listed_of ((hls _ _).1 h)
    lost := fun {i e} hi hnone => by
      rw [DeletePass.take, hes] at hnone
      -- an edge goes now because the vertex lists it, or was lost before
      split at hnone
      · next hl => exact ⟨id, gone_take.mpr (.inl rfl), hq.listed_of hl⟩
      · obtain ⟨x, hx, hl⟩ := hq.lost hi hnone
        exact ⟨x, hgone hx, hl⟩
    closed := fun {x w} hx hd => by
      rcases gone_take.mp hx with rfl | hx
      -- only dependents that an edge still joined to the vertex were dealt with
      · by_cases he : ∃ e, p.graph.edges.get? e.id = some e ∧ e.Joins x w
        · exact .inl (hdeps w hd he)
        · rcases hp.cutOff hid fun e he' hj => he ⟨e, he', hj⟩ with h | h
          · exact .inl (hpq.processed (List.mem_cons_of_mem _ h))
          · exact .inr (h.mono fun hy => hgone (hpq.gone hy))
      · exact (hq.closed hx hd).imp_right (·.mono hgone) }

theorem Advances.take {p q : DeletePass} {id : VertexId} (hpq : Advances g (p.see id) q)
    (hid : id ∉ p.processed) (g' : Graph) (text : String) :
    Advances g p (q.take g' id text) where
  processed h := hpq.processed (List.mem_cons_of_mem _ h)
  gone h := gone_take.mpr (.inr (hpq.gone h))
  fresh {x} h := by
    rcases gone_take.mp h with rfl | h
    · exact .inr hid
    · exact (hpq.fresh h).imp_right fun hx hp => hx (List.mem_cons_of_mem _ hp)
  done {x} hx hg := by
    rcases hpq.done hx hg with h | ⟨h, hn⟩
    · exact .inl (gone_take.mpr (.inr h))
    · rcases List.mem_cons.mp h with h | h
      · exact .inl (gone_take.mpr (.inl h))
      · exact .inr ⟨h, hn⟩

/-- The dependents of a vertex that is there are found, and are those that an
edge still joins to it. -/
theorem dependents_spec (hrules : rules.OnePerPair) {p : DeletePass} (hs : Sound g rules D p)
    {id : VertexId} {v : Vertex} (hv : p.graph.vertices.get? id = some v) :
    ∃ ws, dependents rules p.graph id v = .ok ws ∧ (∀ w ∈ ws, g.Depends rules id w.id) ∧
      ∀ w, g.Depends rules id w → (∃ e, p.graph.edges.get? e.id = some e ∧ e.Joins id w) →
        w ∈ ws.map (·.id) := by
  have hgv := hs.stored hv
  have hdep : ∀ {w}, g.Depends rules id w → ∃ b, g.vertices.get? w = some b ∧
      b.nodeType ∈ rules.dependentTypes v.nodeType := by
    intro w hw
    obtain ⟨a, b, ha, hb, -, hab⟩ := hw
    rw [hgv] at ha
    cases ha
    exact ⟨b, hb, (RuleTable.mem_dependentTypes_iff hrules).mpr hab⟩
  by_cases hempty : (rules.dependentTypes v.nodeType).isEmpty = true
  · refine ⟨[], by rw [dependents, if_pos hempty]; rfl, by simp, fun w hw _ => ?_⟩
    obtain ⟨b, -, hb⟩ := hdep hw
    rw [List.isEmpty_iff.mp hempty] at hb
    cases hb
  · obtain ⟨ns, hns, hmem⟩ := hs.wf.neighbours hv
    refine ⟨_, by rw [dependents, if_neg hempty, hns]; rfl, fun w hw => ?_, fun w hw he => ?_⟩
    · obtain ⟨hw, ht⟩ := List.mem_filter.mp hw
      obtain ⟨hw, e, he, hj⟩ := (hmem w).mp hw
      refine ⟨v, w, hgv, hs.stored hw, ⟨e, hs.edge_of he, hj⟩, ?_⟩
      exact (RuleTable.mem_dependentTypes_iff hrules).mp (by simpa using ht)
    · obtain ⟨e, he, hj⟩ := he
      obtain ⟨b, hb, ht⟩ := hdep hw
      obtain ⟨b', hb'⟩ := Option.isSome_iff_exists.mp (hs.wf.has_end he hj.symm.touches)
      obtain rfl : b' = b := Option.some.inj ((hs.stored hb').symm.trans hb)
      have hid := hs.wf.vertex_id hb'
      refine List.mem_map.mpr ⟨b', List.mem_filter.mpr ⟨(hmem b').mpr ?_, by simpa using ht⟩, hid⟩
      exact ⟨by rw [hid]; exact hb', e, he, by rw [hid]; exact hj⟩

/-! ## Runs of calls -/

/-- **The run lemma**: calls one after another, each of them as a step lemma
says. -/
theorem deals_removeAll {fuel : Nat}
    (hstep : ∀ id p, Ready g rules D fuel id p →
      Deals g rules D [id] p (remove rules fuel id p).2)
    (ids : List VertexId) {p : DeletePass} (hs : Sound g rules D p)
    (hready : ∀ id ∈ ids, Ready g rules D fuel id p) :
    Deals g rules D ids p (removeAll rules fuel ids p) := by
  induction ids generalizing p with
  | nil => exact .nil hs
  | cons id ids ih =>
      have hone := hstep id p (hready id (by simp))
      exact hone.cons (ih hone.sound fun x hx => (hready x (by simp [hx])).later hone)

/-- A call for a vertex that is there, and was not met, may call for its
dependents: there is one vertex less to meet. -/
theorem Ready.dependent (hD : ∀ {v w}, D v → g.Depends rules v w → D w) {fuel : Nat}
    {id w : VertexId} {p : DeletePass} (h : Ready g rules D (fuel + 1) id p)
    (hid : id ∉ p.processed) (hd : g.Depends rules id w) :
    Ready g rules D fuel w (p.see id) where
  sound := h.sound.see id
  allowed _ := by
    have hv : ∃ v, g.vertices.get? id = some v := ⟨_, hd.choose_spec.choose_spec.1⟩
    exact hD (h.allowed (Graph.contains_iff.mpr hv)) hd
  fueled := by
    obtain ⟨v, _, hv, -⟩ := hd
    have hlt := unprocessed_cons_lt hv hid
    have hfuel := h.fueled
    unfold see
    omega

/-- How a call removes a vertex that is there: it calls for the dependents, which
leads to the pass `q`, and then takes the vertex out of what `q` holds. -/
structure Takes (g : Graph) (rules : RuleTable) (D : VertexId → Prop) (fuel : Nat)
    (id : VertexId) (v : Vertex) (p : DeletePass) (ws : List Vertex) (q : DeletePass)
    (g' : Graph) : Prop where
  found : dependents rules p.graph id v = .ok ws
  depend : ∀ w ∈ ws, g.Depends rules id w.id
  joined : ∀ w, g.Depends rules id w →
    (∃ e, p.graph.edges.get? e.id = some e ∧ e.Joins id w) → w ∈ ws.map (·.id)
  calls : removeAll rules fuel (ws.map (·.id)) (p.see id) = q
  deals : Deals g rules D (ws.map (·.id)) (p.see id) q
  stays : ¬ q.Gone id
  removal : q.graph.removeVertex id = .ok (v, g')
  runs : remove rules (fuel + 1) id p = (.ok (), q.take g' id v.described)

theorem exists_takes (hrules : rules.OnePerPair)
    (hD : ∀ {v w}, D v → g.Depends rules v w → D w) {fuel : Nat}
    (hstep : ∀ id p, Ready g rules D fuel id p →
      Deals g rules D [id] p (remove rules fuel id p).2)
    {id : VertexId} {v : Vertex} {p : DeletePass} (h : Ready g rules D (fuel + 1) id p)
    (hid : id ∉ p.processed) (hv : p.graph.vertices.get? id = some v) :
    ∃ ws q g', Takes g rules D fuel id v p ws q g' := by
  obtain ⟨ws, hws, hdepend, hjoined⟩ := dependents_spec hrules h.sound hv
  have hdeals := deals_removeAll hstep (ws.map (·.id)) (h.sound.see id) fun x hx => by
    obtain ⟨w, hw, rfl⟩ := List.mem_map.mp hx
    exact h.dependent hD hid (hdepend w hw)
  -- the vertex is still there: a vertex that is taken up is not taken up again
  have hstays : ¬ (removeAll rules fuel (ws.map (·.id)) (p.see id)).Gone id := by
    intro hgone
    rcases hdeals.advances.fresh hgone with hgone | hnot
    · exact hid (h.sound.processed hgone)
    · exact hnot (List.mem_cons_self ..)
  obtain ⟨g', hrem, -⟩ :=
    Graph.removeVertex_spec ((hdeals.sound.stays hstays).trans (h.sound.stored hv))
  have hruns := remove_present hid hv hws hrem
  rw [h.sound.wf.vertex_id hv] at hruns
  exact ⟨ws, _, g', hws, hdepend, hjoined, rfl, hdeals, hstays, hrem, hruns⟩

theorem Takes.deals_remove {fuel : Nat} {id : VertexId} {v : Vertex} {p q : DeletePass}
    {ws : List Vertex} {g' : Graph} (ht : Takes g rules D fuel id v p ws q g')
    (h : Ready g rules D (fuel + 1) id p) (hid : id ∉ p.processed)
    (hv : p.graph.vertices.get? id = some v) :
    Deals g rules D [id] p (remove rules (fuel + 1) id p).2 := by
  have hgv := h.sound.stored hv
  have hgone : ∀ {x}, q.Gone x → (q.take g' id v.described).Gone x :=
    fun hx => gone_take.mpr (.inr hx)
  rw [ht.runs]
  exact {
    sound := h.sound.take ht.deals.sound ht.deals.advances hid
      (h.allowed (Graph.contains_iff.mpr ⟨v, hgv⟩)) ((ht.deals.sound.stays ht.stays).trans hgv)
      ht.removal fun w hw he => ht.deals.dealt (ht.joined w hw he)
    advances := ht.deals.advances.take hid g' v.described
    dealt := fun hx => by
      rw [List.mem_singleton.mp hx]
      exact ht.deals.advances.processed (List.mem_cons_self ..)
    traced := fun {x} hx => by
      rcases gone_take.mp hx with rfl | hx
      · exact .inr (.inl (List.mem_singleton_self _))
      · rcases ht.deals.traced hx with hp | hdependent | hcaused
        · exact .inl hp
        -- a dependent that has gone is not the vertex itself
        · obtain ⟨w, hw, rfl⟩ := List.mem_map.mp hdependent
          refine .inr (.inr ⟨id, ?_, gone_take.mpr (.inl rfl), ht.depend w hw⟩)
          intro heq
          exact ht.stays (heq ▸ hx)
        · obtain ⟨y, hne, hy, hd⟩ := hcaused
          exact .inr (.inr ⟨y, hne, hgone hy, hd⟩) }

/-- **The step lemma**: a call succeeds, keeps the invariant and deals with its
vertex, whatever cycles of dependence lead back to it. -/
theorem remove_spec (hrules : rules.OnePerPair)
    (hD : ∀ {v w}, D v → g.Depends rules v w → D w) (fuel : Nat) (id : VertexId)
    (p : DeletePass) (h : Ready g rules D fuel id p) :
    (remove rules fuel id p).1 = .ok () ∧ Deals g rules D [id] p (remove rules fuel id p).2 := by
  induction fuel generalizing id p with
  | zero => exact absurd h.fueled (Nat.not_lt_zero _)
  | succ fuel ih =>
      by_cases hid : id ∈ p.processed
      · rw [remove_seen hid]
        exact ⟨rfl, h.sound, .refl g p, fun hx => List.mem_singleton.mp hx ▸ hid, .inl⟩
      · cases hv : p.graph.vertices.get? id with
        | none =>
            rw [remove_absent hid hv]
            exact ⟨rfl, h.sound.see id, advances_see_absent h.sound hid hv,
              fun hx => List.mem_singleton.mp hx ▸ List.mem_cons_self .., .inl⟩
        | some v =>
            obtain ⟨ws, q, g', ht⟩ :=
              exists_takes hrules hD (fun id p h => (ih id p h).2) h hid hv
            exact ⟨congrArg Prod.fst ht.runs, ht.deals_remove h hid hv⟩

end

end DeletePass

end Inventory
