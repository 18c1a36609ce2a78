import Inventory.Proofs.Topology.Cycle
import Inventory.Proofs.Topology.Flags
import Inventory.Proofs.Topology.Positions
import Inventory.Proofs.Trail

/-!
# Topology — flags inside a topology

The descent for delete flags goes where the descent for the topology goes, only
not into sub-models that are kept. What might still set the two apart is the check
for earlier visits, which looks at an element and the key of its trail alone. Where
no set is replaced these two tell everything that a descent goes by: the element
says of what type the trail ends, so placings that are taken for one lead on alike,
and no step is missing below them. Every trail that is flagged is then a position
of the topology.
-/

namespace Inventory

open Definition Relation

variable {g : Graph} {ctx : Context}

/-! ## Placings that lead on alike -/

/-- Trails that a descent cannot tell apart: they have one key and end at one type. -/
structure Trail.Alike (t t' : Trail) : Prop where
  key : t.key = t'.key
  last : t.last.nodeType = t'.last.nodeType

theorem Trail.Alike.extend {t t' : Trail} (h : t.Alike t') (s : TrailStep) :
    (t.extend s).Alike (t'.extend s) where
  key := by rw [key_extend, key_extend, h.key]
  last := by simp

/-- Along node types alike trails are followed by the same steps under the same keys. -/
theorem Trail.Alike.hopsAlong {rules : RuleTable} {t t' : Trail} (h : t.Alike t')
    {ts : List NodeType} {hops : List Hop} (hhops : hopsAlong rules t ts = .ok hops) :
    ∃ hops', Inventory.hopsAlong rules t' ts = .ok hops' ∧
      ∀ hop ∈ hops, ∃ hop' ∈ hops', hop.start.key = hop'.start.key ∧ hop.step = hop'.step := by
  induction ts generalizing t t' hops with
  | nil =>
      cases hhops
      exact ⟨[], rfl, by simp⟩
  | cons n ts ih =>
      obtain ⟨m, hrule, hhops⟩ := Outcome.bind_eq_ok.mp hhops
      obtain ⟨rest, hrest, hhops⟩ := Outcome.bind_eq_ok.mp hhops
      cases hhops
      obtain ⟨rest', hrest', hmatch⟩ := ih (h.extend ⟨n, none⟩) hrest
      refine ⟨⟨t', ⟨n, none⟩⟩ :: rest', ?_, ?_⟩
      · rw [h.last] at hrule
        exact Outcome.bind_eq_ok.mpr ⟨m, hrule, Outcome.bind_eq_ok.mpr ⟨rest', hrest', rfl⟩⟩
      · refine List.forall_mem_cons.mpr ⟨⟨_, List.mem_cons_self, h.key, rfl⟩, fun hop hm => ?_⟩
        obtain ⟨hop', hm', heq⟩ := hmatch hop hm
        exact ⟨hop', List.mem_cons_of_mem _ hm', heq⟩

namespace Place

/-- Placings that a descent cannot tell apart. -/
structure Alike (p q : Place) : Prop where
  element : p.element = q.element
  scope : p.scope = q.scope
  trail : p.trail.Alike q.trail

variable {purpose : Purpose} {p q : Place}

theorem Alike.move (h : p.Alike q) {o : Option TrailStep} {p' : Place}
    (hm : p.Move g ctx purpose o p') : ∃ q', q.Move g ctx purpose o q' ∧ p'.Alike q' := by
  obtain ⟨e, t, s⟩ := p
  obtain ⟨e', t', s'⟩ := q
  obtain ⟨rfl, rfl, htrail⟩ := h
  cases hm with
  | graft hnil hcs hmodel henters htop =>
      exact ⟨_, .graft hnil hcs hmodel henters htop, rfl, rfl, htrail⟩
  | connect hnil hcs hconns hc hchildren hchild hmodel hs =>
      exact ⟨_, .connect hnil hcs hconns hc hchildren hchild hmodel hs, rfl, rfl, htrail.extend _⟩

theorem Alike.reaches (h : p.Alike q) {p' : Place} (hp : p.Reaches g ctx purpose p') :
    ∃ q', q.Reaches g ctx purpose q' ∧ p'.Alike q' := by
  induction hp with
  | refl => exact ⟨q, .refl, h⟩
  | tail _ hm ih =>
      obtain ⟨q₁, hq₁, h₁⟩ := ih
      obtain ⟨o, hm⟩ := hm
      obtain ⟨q₂, hm₂, h₂⟩ := h₁.move hm
      exact ⟨q₂, hq₁.tail ⟨o, hm₂⟩, h₂⟩

/-- The hops of a linkage path that leaves an element out depend on the type that
the trail ends at. -/
theorem Alike.notes (h : p.Alike q) {r : Record} (hr : p.Notes g ctx .topology r) :
    q.Notes g ctx .topology r := by
  cases hr with
  | step hm =>
      obtain ⟨q', hm', -⟩ := h.move hm
      rw [h.trail.key]
      exact .step hm'
  | first hr =>
      cases hr with
      | @hop path hops hop hpurpose hpath hhops hmem =>
          have hbeyond : path.beyond p.trail = path.beyond q.trail := by
            unfold LinkagePath.beyond
            rw [h.trail.last]
          rw [linkageHops, hbeyond] at hhops
          obtain ⟨hops', hhops', hmatch⟩ := h.trail.hopsAlong hhops
          obtain ⟨hop', hmem', hkey, hstep⟩ := hmatch hop hmem
          rw [hkey, hstep]
          exact .first (.hop hpurpose (h.element ▸ hpath) hhops' hmem')
      | marked hpurpose => cases hpurpose
      | kept hpurpose => cases hpurpose

theorem Alike.adds (h : p.Alike q) {r : Record} (hr : p.Adds g ctx .topology r) :
    q.Adds g ctx .topology r := by
  obtain ⟨p', hp', hr⟩ := hr
  obtain ⟨q', hq', h'⟩ := h.reaches hp'
  exact ⟨q', hq', h'.notes hr⟩

end Place

/-! ## Placings without replaced sets -/

/-- Where no set is replaced, an element is placed as it is stored, under no
replacements, at a trail that ends at the type of its model's step. -/
structure Place.Plain (g : Graph) (ctx : Context) (m : Model) (p : Place) : Prop where
  read : p.element.IsRead g
  stands : p.element.Stands g
  placed : m.Places g p.element.vertexId
  scope : p.scope = {}
  type : ∃ model n s, p.element.model g = .ok model ∧ model.step g ctx n = .ok s ∧
    p.trail.last.nodeType = s.nodeType

variable {m : Model}

/-- The step of a composite model is of the type of its top element's step. -/
theorem Model.step_topElement {n : Nat} {s : TrailStep} (hm : m.widgetType? = none)
    (h : m.step g ctx n = .ok s) {top : Element} (htop : m.topElement g = .ok top) :
    ∃ inner k s', top.model g = .ok inner ∧ inner.step g ctx k = .ok s' ∧
      s = if ctx.catalog.supportsPersona s'.nodeType then ⟨s'.nodeType, some m.persona⟩
        else s' := by
  cases n with
  | zero => cases h
  | succ n =>
      rcases Model.step_succ_eq_ok h with ⟨t, ht, -⟩ | ⟨-, top', inner, s', htop', hinner, hs', hs⟩
      · cases hm.symm.trans ht
      · cases htop.symm.trans htop'
        exact ⟨inner, n, s', hinner, hs', hs⟩

theorem Model.nodeType_step_topElement {n : Nat} {s : TrailStep} (hm : m.widgetType? = none)
    (h : m.step g ctx n = .ok s) {top : Element} (htop : m.topElement g = .ok top) :
    ∃ inner k s', top.model g = .ok inner ∧ inner.step g ctx k = .ok s' ∧
      s.nodeType = s'.nodeType := by
  obtain ⟨inner, k, s', hinner, hs', rfl⟩ := Model.step_topElement hm h htop
  exact ⟨inner, k, s', hinner, hs', by split <;> rfl⟩

theorem Model.widgetType?_of_composite (h : m.kind.isComposite = true) : m.widgetType? = none := by
  unfold widgetType?
  rw [if_neg]
  intro hkind
  rw [hkind] at h
  cases h

namespace Place.Plain

variable {p q : Place}

theorem move (wf : g.WellFormed) (hfree : ∀ x, m.Places g x → ¬ g.Constrained x)
    (h : p.Plain g ctx m) {o : Option TrailStep} (hm : p.Move g ctx .topology o q) :
    q.Plain g ctx m := by
  have hnone : p.element.constraints g = .ok [] := wf.constraints h.stands (hfree _ h.placed)
  have hbelow : ∀ {x}, g.Below p.element.vertexId x → m.Places g x := by
    intro x hx
    obtain ⟨hw, top, htop, hchain⟩ := h.placed
    exact ⟨hw, top, htop, hchain.tail hx⟩
  cases hm with
  | @graft cs sub top hnil hcs hmodel henters htop =>
      cases hnone.symm.trans hcs
      have hopen : g.Open p.element.vertexId := h.stands.plain.mp hnil
      obtain ⟨hsub, hisA⟩ := (wf.model h.stands).of_ok hmodel
      obtain ⟨hstands, hstarts⟩ := (wf.topElement hsub).of_ok htop
      have hcomposite : sub.kind.isComposite = true := by
        simpa [Purpose.enters] using henters
      refine ⟨wf.isRead_topOfModel htop, hstands, hbelow ?_, h.scope, ?_⟩
      · exact .graft hopen ((hisA _).mpr rfl) (hsub.composite_iff.mpr hcomposite)
          ((hstarts _).mpr rfl)
      · obtain ⟨model, n, s, hmodel', hs, htype⟩ := h.type
        cases hmodel.symm.trans hmodel'
        obtain ⟨inner, k, s', hinner, hs', hsame⟩ :=
          Model.nodeType_step_topElement (Model.widgetType?_of_composite hcomposite) hs htop
        exact ⟨inner, k, s', hinner, hs', htype.trans hsame⟩
  | @connect cs conns c children child model n s hnil hcs hconns hc hchildren hchild hmodel hs =>
      cases hnone.symm.trans hcs
      have hopen : g.Open p.element.vertexId := h.stands.plain.mp hnil
      rw [h.scope] at hchildren
      obtain ⟨hconnections, hleads⟩ := (wf.connections h.stands).of_ok hconns
      obtain ⟨hstands, hoffers⟩ := (wf.resolve (hconnections c hc)).of_ok hchildren
      refine ⟨wf.isRead_resolve hconns hc hchildren hchild, hstands child hchild, hbelow ?_,
        h.scope, model, n, s, hmodel, hs, by simp⟩
      exact .connect hopen ((hleads _).mpr ⟨c, hc, rfl⟩) ((hoffers _).mpr ⟨child, hchild, rfl⟩)

theorem reaches (wf : g.WellFormed) (hfree : ∀ x, m.Places g x → ¬ g.Constrained x)
    (h : p.Plain g ctx m) (hq : p.Reaches g ctx .topology q) : q.Plain g ctx m := by
  induction hq with
  | refl => exact h
  | tail _ hm ih =>
      obtain ⟨o, hm⟩ := hm
      exact ih.move wf hfree hm

/-- Placings that a descent takes for one lead on alike. -/
theorem alike (hp : p.Plain g ctx m) (hq : q.Plain g ctx m) (h : p.Twins q) : p.Alike q := by
  obtain ⟨hid, hkey⟩ := h
  have helement : p.element = q.element := hp.read.eq hq.read hid
  refine ⟨helement, hp.scope.trans hq.scope.symm, hkey, ?_⟩
  obtain ⟨model, n, s, hmodel, hs, htype⟩ := hp.type
  obtain ⟨model', n', s', hmodel', hs', htype'⟩ := hq.type
  rw [helement] at hmodel
  cases hmodel.symm.trans hmodel'
  rw [htype, htype', Model.step_unique hs hs']

end Place.Plain

/-- The descent through a model starts at a plain place. -/
theorem Model.StartsAt.plain (wf : g.WellFormed) (hm : m.Stands g) {p : Place}
    (h : m.StartsAt g ctx p) : p.Plain g ctx m := by
  obtain ⟨hw, top, root, htop, hroot, rfl⟩ := h
  obtain ⟨hstands, hstarts⟩ := (wf.topElement hm).of_ok htop
  obtain ⟨inner, k, s', hinner, hs', hsame⟩ := Model.nodeType_step_topElement hw hroot htop
  refine ⟨wf.isRead_topOfModel htop, hstands, ⟨hw, _, (hstarts _).mpr rfl, .refl⟩, rfl, ?_⟩
  exact ⟨inner, k, s', hinner, hs', hsame⟩

/-- Where no set is replaced, nothing is missing below an element that is passed by. -/
theorem Model.StartsAt.not_splits (wf : g.WellFormed) (hm : m.Stands g)
    (hfree : ∀ x, m.Places g x → ¬ g.Constrained x) {start : Place} (h : m.StartsAt g ctx start)
    (r : Record) : ¬ start.Splits g ctx .topology r := by
  rintro ⟨p, q, hp, hq, htwins, hadds, hnot⟩
  have hstart : start.Plain g ctx m := h.plain wf hm
  have halike : q.Alike p := (hstart.reaches wf hfree hq).alike (hstart.reaches wf hfree hp)
    ⟨htwins.1.symm, htwins.2.symm⟩
  exact hnot (halike.adds hadds)

/-! ## Positions of the places -/

namespace Topology

variable {T : Topology}

/-- A position is the root, or a step further than one that the step may follow. -/
theorem Position.key_eq {t : Trail} (h : T.Position t) :
    t.key = T.rootTrail.key ∨
      ∃ t' s, T.Position t' ∧ s ∈ T.next t' ∧ t.key = t'.key ++ "|" ++ s.render := by
  cases h with
  | root => exact .inl rfl
  | step h hs => exact .inr ⟨_, _, h, hs, Trail.key_extend ..⟩

/-- The topology lets the steps follow that a descent from the place notes. -/
def Covers (g : Graph) (ctx : Context) (T : Topology) (start : Place) : Prop :=
  ∀ {k s}, start.Adds g ctx .topology (.step k s) → s ∈ T.stepsAt k

/-- Places are at positions. -/
theorem Covers.position {start p : Place} (h : T.Covers g ctx start)
    (hstart : T.Position start.trail) (hp : start.Reaches g ctx .topology p) :
    T.Position p.trail := by
  induction hp with
  | refl => exact hstart
  | tail hreach hm ih =>
      obtain ⟨o, hm⟩ := hm
      cases o with
      | none =>
          cases hm
          exact ih
      | some s =>
          have hs := h ⟨_, hreach, .step hm⟩
          cases hm
          exact .step ih hs

theorem position_of_hopsAlong {rules : RuleTable} {t : Trail} {ts : List NodeType}
    {hops : List Hop} (ht : T.Position t) (h : hopsAlong rules t ts = .ok hops)
    (hs : ∀ hop ∈ hops, hop.step ∈ T.next hop.start) :
    T.Position ((hops.getLast?.map Hop.finish).getD t) := by
  induction ts generalizing t hops with
  | nil =>
      cases h
      exact ht
  | cons n ts ih =>
      obtain ⟨m, -, h⟩ := Outcome.bind_eq_ok.mp h
      obtain ⟨rest, hrest, h⟩ := Outcome.bind_eq_ok.mp h
      cases h
      obtain ⟨hfirst, hlater⟩ := List.forall_mem_cons.mp hs
      have hlast := ih (ht.step hfirst) hrest hlater
      cases rest with
      | nil => exact hlast
      | cons hop rest =>
          rw [List.getLast?_cons_cons]
          cases hl : (hop :: rest).getLast? with
          | none => simp at hl
          | some l =>
              rw [hl] at hlast
              exact hlast

/-- What a place marks is at a position. -/
theorem Covers.position_of_marks {start p : Place} (h : T.Covers g ctx start)
    (hstart : T.Position start.trail) (hp : start.Reaches g ctx .topology p) {k : String}
    (hk : p.Marks ctx.catalog.rules k) : ∃ t, T.Position t ∧ t.key = k := by
  have hposition : T.Position p.trail := h.position hstart hp
  rcases hk with ⟨-, rfl⟩ | ⟨path, hpath, hops, hhops, rfl⟩
  · exact ⟨p.trail, hposition, rfl⟩
  · refine ⟨_, position_of_hopsAlong hposition hhops fun hop hmem => ?_, rfl⟩
    exact h ⟨p, hp, .first (.hop rfl hpath hhops hmem)⟩

end Topology

/-! ## Two descents through one model -/

theorem Place.Move.of_deletion {p q : Place} {o : Option TrailStep}
    (h : p.Move g ctx .deletion o q) : p.Move g ctx .topology o q := by
  cases h with
  | graft hnil hcs hmodel henters htop =>
      refine .graft hnil hcs hmodel ?_ htop
      rw [Purpose.enters, Bool.and_eq_true] at henters ⊢
      exact ⟨henters.1, rfl⟩
  | connect hnil hcs hconns hc hchildren hchild hmodel hs =>
      exact .connect hnil hcs hconns hc hchildren hchild hmodel hs

theorem Place.Reaches.of_deletion {p q : Place} (h : p.Reaches g ctx .deletion q) :
    p.Reaches g ctx .topology q :=
  ReflTransGen.mono (fun _ _ => Exists.imp fun _ hm => hm.of_deletion) _ _ h

/-- The flags of a model are recorded under the root of its topology. -/
theorem Model.rootOf_topElement {root : TrailStep} {top : Element} (hm : m.widgetType? = none)
    (htop : m.topElement g = .ok top) (hroot : m.stepAt g ctx 0 = .ok root) {root' : TrailStep}
    (h : DeleteFlags.rootOf g ctx top (some m.modelId) (some m.modelVersion) = .ok root') :
    root' = root := by
  obtain ⟨inner, k, s, hinner, hs, rfl⟩ := Model.step_topElement hm hroot htop
  obtain ⟨inner', hinner', h⟩ := Outcome.bind_eq_ok.mp h
  obtain ⟨s', hs', h⟩ := Outcome.bind_eq_ok.mp h
  cases hinner.symm.trans hinner'
  obtain rfl : s = s' := Model.step_unique hs hs'
  exact (Except.ok.inj h).symm

/-- The topology of a composite model covers the descent that compiles it. -/
theorem covers_ofModel (wf : g.WellFormed) (hm : m.Stands g)
    (hfree : ∀ x, m.Places g x → ¬ g.Constrained x) {start : Place}
    (hstart : m.StartsAt g ctx start) {T : Topology} (h : Topology.ofModel g ctx m = .ok T) :
    T.rootTrail = start.trail ∧ T.Covers g ctx start := by
  have hnot := hstart.not_splits wf hm hfree
  obtain ⟨hw, top, root, htop, hroot, rfl⟩ := hstart
  obtain ⟨root', top', d, hroot', htop', hd, rfl⟩ := (Topology.ofModel_eq_ok hw).mp h
  cases hroot.symm.trans hroot'
  cases htop.symm.trans htop'
  obtain ⟨⟨hrooted, -⟩, -, hcomplete⟩ := descendFrom_delivers hd
  refine ⟨by rw [Topology.rootTrail, hrooted]; rfl, fun {k s} hs => ?_⟩
  exact (hcomplete hs).resolve_right (hnot _)

/-- **Flags lie inside the topology.** On every reachable graph, when a composite
model below whose top element no element uses a constraint has both a topology and
delete flags, the flags are recorded from the root step of the topology, and every
trail that is flagged is a position: the root, or one step further than a position,
over a step that the topology lists there. -/
theorem ofModel_inside {g : Graph} (hg : g.Reachable) {ctx : Context} {v : Vertex} {m : Model}
    (hv : g.vertices.get? v.id = some v) (hm : Model.ofVertex v = .ok m)
    (hcomposite : m.kind.isComposite = true) (hfree : ∀ x, m.Places g x → ¬ g.Constrained x)
    {T : Topology} {flags : DeleteFlags} (hT : Topology.ofModel g ctx m = .ok T)
    (hflags : DeleteFlags.ofModel g ctx m = .ok flags) :
    (∃ top, m.topElement g = .ok top ∧
        DeleteFlags.rootOf g ctx top (some m.modelId) (some m.modelVersion) = .ok T.root) ∧
      ∀ k, flags.contains k = true → k = T.rootTrail.key ∨
        ∃ t s, T.Position t ∧ s ∈ T.next t ∧ k = t.key ++ "|" ++ s.render := by
  have wf : g.WellFormed := hg.wellFormed
  have hid : m.vertexId = v.id := meets_modelOfVertex.of_ok hm
  have hstands : m.Stands g := ⟨v, hid ▸ hv, hm⟩
  have hw : m.widgetType? = none := Model.widgetType?_of_composite hcomposite
  obtain ⟨root, top, -, hroot, htop, -⟩ := (Topology.ofModel_eq_ok hw).mp hT
  obtain ⟨hrootTrail, hcovers⟩ :=
    covers_ofModel wf hstands hfree ⟨hw, top, root, htop, hroot, rfl⟩ hT
  -- the flags are recorded below the same start
  simp only [DeleteFlags.ofModel, hw] at hflags
  obtain ⟨top', htop', hflags⟩ := Outcome.bind_eq_ok.mp hflags
  cases htop.symm.trans htop'
  obtain ⟨root', d, hrootOf, hd, rfl⟩ := DeleteFlags.ofElement_eq_ok.mp hflags
  obtain rfl : root' = root := Model.rootOf_topElement hw htop hroot hrootOf
  have hTroot : T.root = root' := congrArg Trail.root hrootTrail
  refine ⟨⟨top, htop, hTroot ▸ hrootOf⟩, fun k hk => ?_⟩
  obtain ⟨b, hb⟩ := Option.isSome_iff_exists.mp hk
  obtain ⟨p, ⟨hreach, hmarks⟩, -⟩ := (descendFrom_speaks hd).occurs hb
  obtain ⟨t, ht, rfl⟩ := hcovers.position_of_marks (hrootTrail ▸ .root) hreach.of_deletion hmarks
  exact ht.key_eq

/-! ### A service with a kept part -/

namespace Kept

open Pinning

def plugVertex : Vertex :=
  ⟨"plug", elementType, Table.ofList [("linkage-points", .set ["c|d"])]⟩

def vertices : List Vertex :=
  [modelVertex "svc" "service" "svc", modelVertex "sub" "resource" "sub",
    modelVertex "node-a" "widget" "a", modelVertex "node-b" "widget" "b",
    modelVertex "node-c" "widget" "c", elementVertex "top" true, elementVertex "part" false,
    elementVertex "inner" true, elementVertex "below" true, plugVertex]

/-- A service has a part of its own model, which is kept, and a plug that leads on
to another type. -/
def edges : List Edge :=
  [⟨"1", "svc", "top", startsWith, ∅⟩, ⟨"2", "top", "node-a", isA, ∅⟩,
    ⟨"3", "top", "part", connectsTo, ∅⟩, ⟨"4", "part", "sub", isA, ∅⟩,
    ⟨"5", "sub", "inner", startsWith, ∅⟩, ⟨"6", "inner", "node-b", isA, ∅⟩,
    ⟨"7", "inner", "below", connectsTo, ∅⟩, ⟨"8", "below", "node-c", isA, ∅⟩,
    ⟨"9", "top", "plug", connectsTo, ∅⟩, ⟨"10", "plug", "node-c", isA, ∅⟩]

def graph : Graph := (Graph.ofParts vertices edges).toOption.getD .empty

/-- Instances of the part's type and of the service's carry a persona. -/
def context : Context where
  catalog := ⟨⟨[Fitted.rule "a" "b", Fitted.rule "b" "c", Fitted.rule "a" "c",
      Fitted.rule "c" "d"]⟩,
    Table.ofList [("a", { persona := true }), ("b", { persona := true })]⟩

def topology : Topology where
  root := ⟨"a", some ⟨"svc", "1"⟩⟩
  entries := Table.ofList [("a,svc,1", [⟨"b", some ⟨"sub", "1"⟩⟩, ⟨"c", none⟩]),
    ("a,svc,1|b,sub,1", [⟨"c", none⟩]), ("a,svc,1|c", [⟨"d", none⟩])]

def flags : DeleteFlags :=
  Table.ofList [("a,svc,1", true), ("a,svc,1|b,sub,1", false), ("a,svc,1|c|d", false)]

/-- The trail inside the kept part has no flag, the one beyond the plug has, and is
a position as well. -/
theorem ofModel_inside_kept :
    graph.Reachable ∧ graph.vertices.get? "svc" = some (modelVertex "svc" "service" "svc") ∧
      Model.ofVertex (modelVertex "svc" "service" "svc") = .ok service ∧
      service.kind.isComposite = true ∧ (∀ x, service.Places graph x → ¬ graph.Constrained x) ∧
      Topology.ofModel graph context service = .ok topology ∧
      DeleteFlags.ofModel graph context service = .ok flags ∧
      ("a,svc,1|c|d" = topology.rootTrail.key ∨
        ∃ t s, topology.Position t ∧ s ∈ topology.next t ∧
          "a,svc,1|c|d" = t.key ++ "|" ++ s.render) := by
  have hg : graph.Reachable :=
    Graph.reachable_ofParts (show Graph.ofParts vertices edges = .ok graph from rfl)
  have hv : graph.vertices.get? "svc" = some (modelVertex "svc" "service" "svc") := by decide
  have hm : Model.ofVertex (modelVertex "svc" "service" "svc") = .ok service := by rfl
  have hfree : ∀ x, service.Places graph x → ¬ graph.Constrained x :=
    fun x _ => Graph.not_constrained (by decide) x
  have hT : Topology.ofModel graph context service = .ok topology := by decide +kernel
  have hflags : DeleteFlags.ofModel graph context service = .ok flags := by decide +kernel
  obtain ⟨-, hkeys⟩ := ofModel_inside hg (v := modelVertex "svc" "service" "svc") hv hm rfl hfree
    hT hflags
  exact ⟨hg, hv, hm, rfl, hfree, hT, hflags, hkeys "a,svc,1|c|d" (by decide)⟩

end Kept

end Inventory
