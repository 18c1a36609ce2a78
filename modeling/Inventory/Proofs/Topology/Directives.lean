import Inventory.Proofs.Graph.Reload
import Inventory.Proofs.Topology.QueryPlaces
import Inventory.Proofs.Topology.Reordered

/-!
# Topology — directives and the order of definitions

Where the elements of a named query are placed, and what each of them asks, does
not depend on the order in which the edges of its definition are listed. So
neither does its topology, nor what a directive asks, up to order. Which of
several elements at one trail is visited first does depend on it, and with it
what a directive shows.
-/

namespace Inventory

open Definition

/-! ## Readings -/

/-- Two readings of lists that succeed together with the same items give the
same items when nothing stands for a failure. -/
theorem Outcome.getD_perm {α : Type} {x y : Outcome (List α)}
    (hxy : ∀ {l}, x = .ok l → ∃ l', y = .ok l' ∧ l.Perm l')
    (hyx : ∀ {l}, y = .ok l → ∃ l', x = .ok l' ∧ l.Perm l') :
    (x.toOption.getD []).Perm (y.toOption.getD []) := by
  cases x with
  | ok l =>
      obtain ⟨l', rfl, hperm⟩ := hxy rfl
      exact hperm
  | error e =>
      cases y with
      | ok l => obtain ⟨l', hl', -⟩ := hyx rfl; cases hl'
      | error e' => exact .refl []

namespace Graph.Reordered

variable {g g' : Graph} {ctx : Context}

theorem queryTop (h : g.Reordered g') {q : NamedQuery} {e : QueryElement}
    (he : q.topElement g = .ok e) : q.topElement g' = .ok e := by
  obtain ⟨v, hv, he⟩ := Outcome.bind_eq_ok.mp he
  exact Outcome.bind_eq_ok.mpr ⟨v, h.singleTarget hv, he⟩

theorem queryModel (h : g.Reordered g') {e : QueryElement} {m : Model}
    (hm : e.model g = .ok m) : e.model g' = .ok m := by
  obtain ⟨v, hv, hm⟩ := Outcome.bind_eq_ok.mp hm
  exact Outcome.bind_eq_ok.mpr ⟨v, h.singleTarget hv, hm⟩

/-- What an element uses of a type is read again, in some order. -/
theorem readUsed (h : g.Reordered g') {α : Type} {read : Vertex → Outcome α} {id : VertexId}
    {t : NodeType} {xs : List α}
    (hx : (Definition.targets g id uses >>= fun ws =>
      (ws.filter (·.nodeType == t)).mapM read) = .ok xs) :
    ∃ xs', (Definition.targets g' id uses >>= fun ws =>
      (ws.filter (·.nodeType == t)).mapM read) = .ok xs' ∧ xs.Perm xs' := by
  obtain ⟨ws, hws, hx⟩ := Outcome.bind_eq_ok.mp hx
  obtain ⟨ws', hws', hp⟩ := h.targets hws
  obtain ⟨xs', hxs', hp'⟩ := Outcome.mapM_perm (hp.filter _) hx
  exact ⟨xs', Outcome.bind_eq_ok.mpr ⟨ws', hws', hxs'⟩, hp'⟩

theorem asked (h : g.Reordered g') (e : QueryElement) : (e.asked g).Perm (e.asked g') :=
  Outcome.getD_perm h.readUsed h.symm.readUsed

theorem joined (h : g.Reordered g') (e : QueryElement) : (e.joined g).Perm (e.joined g') :=
  Outcome.getD_perm h.readUsed h.symm.readUsed

/-! ## Places -/

theorem queryMove (h : g.Reordered g') {p q : QueryPlace} {s : TrailStep}
    (hm : p.Move g ctx s q) : p.Move g' ctx s q := by
  obtain ⟨hchildren, he, hmodel, hs⟩ := hm
  obtain ⟨children', hchildren', hperm⟩ := h.readTargets hchildren
  exact .child hchildren' (hperm.mem_iff.mp he) (h.queryModel hmodel) (h.step hs)

theorem queryReaches (h : g.Reordered g') {p q : QueryPlace} (hr : p.Reaches g ctx q) :
    p.Reaches g' ctx q :=
  Relation.ReflTransGen.mono (fun _ _ ⟨s, hm⟩ => ⟨s, h.queryMove hm⟩) _ _ hr

theorem startsAt (h : g.Reordered g') {q : NamedQuery} {root : TrailStep} {p : QueryPlace}
    (hs : q.StartsAt g ctx root p) : q.StartsAt g' ctx root p := by
  obtain ⟨top, m, htop, hm, hroot, rfl⟩ := hs
  exact ⟨top, m, h.queryTop htop, h.queryModel hm, h.step hroot, rfl⟩

theorem placesAt (h : g.Reordered g') {q : NamedQuery} {k : String} {e : QueryElement}
    (hp : q.PlacesAt g ctx k e) : q.PlacesAt g' ctx k e := by
  obtain ⟨root, p, hstart, hreach⟩ := hp
  exact ⟨root, p, h.startsAt hstart, h.queryReaches hreach⟩

end Graph.Reordered

/-! ## Directives -/

/-- The elements show the same of an instance. -/
structure QueryElement.ShowsAlike (e e' : QueryElement) : Prop where
  doNotOutput : e.doNotOutput = e'.doNotOutput
  propertyLimit : e.propertyLimit = e'.propertyLimit
  collect : e.collect = e'.collect

/-- The directives ask for the same, in some order. -/
structure Directive.AsksAlike (d d' : Directive) : Prop where
  constraints : d.constraints.Perm d'.constraints
  lookups : d.lookups.Perm d'.lookups

/-- The same elements in another order ask for the same. -/
theorem Directive.ofElements_perm {g g' : Graph} (h : g.Reordered g')
    {es es' : List QueryElement} (hperm : es.Perm es') :
    Option.Rel AsksAlike (ofElements g es) (ofElements g' es') := by
  cases es with
  | nil =>
      rw [hperm.symm.eq_nil]
      exact .none
  | cons e es =>
      cases es' with
      | nil => exact absurd hperm.eq_nil (List.cons_ne_nil _ _)
      | cons e' es' =>
          exact .some ⟨hperm.flatMap fun e _ => h.asked e, hperm.flatMap fun e _ => h.joined e⟩

section

variable {g g' : Graph} {ctx : Context} {q : NamedQuery} {c c' : QueryTopology}

/-- Whatever the order of the definition, the same elements are placed at a trail. -/
theorem QueryTopology.Compiles.elementsAt_perm {p : QueryPlace} {log log' : List QueryPlace}
    (h : c.Compiles g ctx p log) (h' : c'.Compiles g' ctx p log') (hre : g.Reordered g')
    (k : String) : (QueryPlace.elementsAt log k).Perm (QueryPlace.elementsAt log' k) := by
  have hperm : log.Perm log' := by
    refine (List.perm_ext_iff_of_nodup h.once h'.once).mpr fun x => ?_
    rw [h.mem_log, h'.mem_log]
    exact ⟨hre.queryReaches, hre.symm.queryReaches⟩
  exact (hperm.filter _).map _

/-- What a directive shows is what one of the elements placed at its trail shows. -/
theorem QueryTopology.Compiles.placesAt {p : QueryPlace} {log : List QueryPlace}
    (h : c.Compiles g ctx p log) (hstart : q.StartsAt g ctx c.topology.root p) {k : String}
    {d : Directive} (hd : c.directives.get? k = some d) : q.PlacesAt g ctx k d.element := by
  rw [h.directives] at hd
  have hmem := QueryPlace.mem_elementsAt.mp (Directive.element_mem_of_ofElements hd)
  exact ⟨_, p, hstart, h.mem_log.mp hmem⟩

/-- **What a compiled named query owes to the order of its definition.** Two
graphs that differ only in the order of their listings compile a named query to
the same topology, with directives for the same trails that ask for the same.
What a directive shows is what some element placed at its trail shows, so the
two show the same wherever all elements placed there do. -/
theorem ofQuery_reordered (hg : g.Reachable) (hg' : g'.Reachable) (hre : g.Reordered g')
    (h : QueryTopology.ofQuery g ctx q = .ok c) (h' : QueryTopology.ofQuery g' ctx q = .ok c') :
    c.topology = c'.topology ∧ ∀ k,
      Option.Rel Directive.AsksAlike (c.directives.get? k) (c'.directives.get? k) ∧
        ∀ {d d'}, c.directives.get? k = some d → c'.directives.get? k = some d' →
          q.PlacesAt g ctx k d.element ∧ q.PlacesAt g ctx k d'.element ∧
            ((∀ {e e'}, q.PlacesAt g ctx k e → q.PlacesAt g ctx k e' → e.ShowsAlike e') →
              d.element.ShowsAlike d'.element) := by
  obtain ⟨p, log, hstart, hc⟩ := compiles_ofQuery hg.wellFormed h
  obtain ⟨p', log', hstart', hc'⟩ := compiles_ofQuery hg'.wellFormed h'
  obtain ⟨hroot, rfl⟩ := (hre.startsAt hstart).unique hstart'
  have hsteps : ∀ k s, s ∈ c.topology.stepsAt k ↔ s ∈ c'.topology.stepsAt k := by
    intro k s
    rw [hc.mem_steps, hc'.mem_steps]
    constructor
    · rintro ⟨x, y, hx, hxy, hk⟩
      exact ⟨x, y, hre.queryReaches hx, hre.queryMove hxy, hk⟩
    · rintro ⟨x, y, hx, hxy, hk⟩
      exact ⟨x, y, hre.symm.queryReaches hx, hre.symm.queryMove hxy, hk⟩
  refine ⟨Topology.Ordered.ext hc.ordered hc'.ordered hroot hsteps,
    fun k => ⟨?_, fun {d d'} hd hd' => ?_⟩⟩
  · rw [hc.directives, hc'.directives]
    exact Directive.ofElements_perm hre (hc.elementsAt_perm hc' hre k)
  · have hplaced := hc.placesAt hstart hd
    have hplaced' := hre.symm.placesAt (hc'.placesAt hstart' hd')
    exact ⟨hplaced, hplaced', fun hall => hall hplaced hplaced'⟩

end

/-! ### Two elements for one card -/

namespace Veiled

open Pinning Inventory.Ring

def hidingVertex (id : String) : Vertex :=
  ⟨id, queryElementType, Table.ofList [("do-not-output", .bool true)]⟩

def vertices : List Vertex :=
  [modelVertex "host-model" "widget" "host", modelVertex "card-model" "widget" "card", askVertex,
    queryVertex "ask-host", hidingVertex "ask-hidden", queryVertex "ask-shown"]

def toHidden : Edge := ⟨"4", "ask-host", "ask-hidden", connectsTo, ∅⟩

def toShown : Edge := ⟨"3", "ask-host", "ask-shown", connectsTo, ∅⟩

/-- A query asks for the cards of hosts twice, once without showing them. -/
def edges : List Edge :=
  [⟨"1", "ask", "ask-host", startsWith, ∅⟩, ⟨"2", "ask-host", "host-model", isA, ∅⟩,
    ⟨"5", "ask-hidden", "card-model", isA, ∅⟩, ⟨"6", "ask-shown", "card-model", isA, ∅⟩]

/-- The definition with the element that hides its instances added first. -/
def hiddenFirst : Graph :=
  (Graph.ofParts vertices (toHidden :: toShown :: edges)).toOption.getD .empty

/-- The definition with the element that shows its instances added first. -/
def shownFirst : Graph :=
  (Graph.ofParts vertices (toShown :: toHidden :: edges)).toOption.getD .empty

def context : Context where
  catalog := ⟨⟨[Fitted.rule "host" "card"]⟩, ∅⟩

theorem builtOnce_hiddenFirst : hiddenFirst.BuiltOnce :=
  Graph.builtOnce_ofParts (by decide)
    (show Graph.ofParts vertices (toHidden :: toShown :: edges) = .ok hiddenFirst from rfl)

theorem builtOnce_shownFirst : shownFirst.BuiltOnce :=
  Graph.builtOnce_ofParts (by decide)
    (show Graph.ofParts vertices (toShown :: toHidden :: edges) = .ok shownFirst from rfl)

theorem reordered_hiddenFirst : hiddenFirst.Reordered shownFirst :=
  builtOnce_hiddenFirst.reordered_of_eq builtOnce_shownFirst (by decide) (by decide)

/-- What the query is compiled to, with one of its elements first for the cards. -/
def compiled (first : QueryElement) : QueryTopology where
  topology := ⟨⟨"host", none⟩, Table.ofList [("host", [⟨"card", none⟩])]⟩
  directives := Table.ofList [("host", ⟨⟨"ask-host", false, [], none⟩, [], []⟩),
    ("host|card", ⟨first, [], []⟩)]

theorem ofQuery_hiddenFirst : QueryTopology.ofQuery hiddenFirst context query =
    .ok (compiled ⟨"ask-hidden", true, [], none⟩) := by rfl

theorem ofQuery_shownFirst : QueryTopology.ofQuery shownFirst context query =
    .ok (compiled ⟨"ask-shown", false, [], none⟩) := by rfl

/-- In both orders the cards are asked for alike. -/
theorem ofQuery_reordered_veiled :
    hiddenFirst.Reachable ∧ shownFirst.Reachable ∧ hiddenFirst.Reordered shownFirst ∧
      ∃ c c', QueryTopology.ofQuery hiddenFirst context query = .ok c ∧
        QueryTopology.ofQuery shownFirst context query = .ok c' ∧ c.topology = c'.topology ∧
        Option.Rel Directive.AsksAlike (c.directives.get? "host|card")
          (c'.directives.get? "host|card") := by
  have hg := builtOnce_hiddenFirst.reachable
  have hg' := builtOnce_shownFirst.reachable
  obtain ⟨htopology, halike⟩ :=
    ofQuery_reordered hg hg' reordered_hiddenFirst ofQuery_hiddenFirst ofQuery_shownFirst
  exact ⟨hg, hg', reordered_hiddenFirst, _, _, ofQuery_hiddenFirst, ofQuery_shownFirst, htopology,
    (halike _).1⟩

/-- The cards are shown or hidden as the one or the other element was added first. -/
theorem ofQuery_hides_by_order :
    hiddenFirst.Reachable ∧ shownFirst.Reachable ∧ hiddenFirst.Reordered shownFirst ∧
      ∃ c c' d d', QueryTopology.ofQuery hiddenFirst context query = .ok c ∧
        QueryTopology.ofQuery shownFirst context query = .ok c' ∧
        c.directives.get? "host|card" = some d ∧ c'.directives.get? "host|card" = some d' ∧
        d.element.doNotOutput = true ∧ d'.element.doNotOutput = false :=
  ⟨builtOnce_hiddenFirst.reachable, builtOnce_shownFirst.reachable, reordered_hiddenFirst, _, _,
    _, _, ofQuery_hiddenFirst, ofQuery_shownFirst, rfl, rfl, rfl, rfl⟩

end Veiled

end Inventory
