import Mathlib.Logic.Relation
import Inventory.Topology.Descent
import Inventory.Proofs.Outcome

/-!
# Topology — places of elements

A descent places elements at trails, each under the replacements that the
elements above it ask for. Where it can go from a place, and what a place notes,
are relations that know of no order of visits.
-/

namespace Inventory

/-! ## Steps of models -/

theorem Model.step_succ_eq_ok {g : Graph} {ctx : Context} {m : Model} {n : Nat}
    {s : TrailStep} (h : m.step g ctx (n + 1) = .ok s) :
    (∃ t, m.widgetType? = some t ∧ s = ⟨t, none⟩) ∨
      (m.widgetType? = none ∧ ∃ top inner s', m.topElement g = .ok top ∧
        top.model g = .ok inner ∧ inner.step g ctx n = .ok s' ∧
        s = if ctx.catalog.supportsPersona s'.nodeType then ⟨s'.nodeType, some m.persona⟩
          else s') := by
  unfold Model.step at h
  split at h
  · next t ht => cases h; exact .inl ⟨t, ht, rfl⟩
  · next ht =>
      obtain ⟨top, htop, h⟩ := Outcome.bind_eq_ok.mp h
      obtain ⟨inner, hinner, h⟩ := Outcome.bind_eq_ok.mp h
      obtain ⟨s', hs', h⟩ := Outcome.bind_eq_ok.mp h
      cases h
      exact .inr ⟨ht, top, inner, s', htop, hinner, hs', rfl⟩

/-- The step of a model is the same with however many levels it is found. -/
theorem Model.step_unique {g : Graph} {ctx : Context} {m : Model} {n k : Nat}
    {s s' : TrailStep} (h : m.step g ctx n = .ok s) (h' : m.step g ctx k = .ok s') :
    s = s' := by
  induction n generalizing m k s s' with
  | zero => cases h
  | succ n ih =>
      cases k with
      | zero => cases h'
      | succ k =>
          -- whether the model is a widget does not depend on the levels
          rcases step_succ_eq_ok h with ⟨t, ht, rfl⟩ | ⟨ht, top, inner, s₁, htop, hinner, hs, rfl⟩
          · rcases step_succ_eq_ok h' with ⟨t', ht', rfl⟩ | ⟨ht', _⟩
            · cases ht.symm.trans ht'; rfl
            · cases ht.symm.trans ht'
          · rcases step_succ_eq_ok h' with
              ⟨t', ht', rfl⟩ | ⟨_, top', inner', s₁', htop', hinner', hs', rfl⟩
            · cases ht.symm.trans ht'
            · cases htop.symm.trans htop'
              cases hinner.symm.trans hinner'
              rw [ih hs hs']

/-! ## Places -/

/-- An element placed at a trail, under the replacements in force there. -/
structure Place where
  element : Element
  trail : Trail
  scope : Scope

/-- One thing a descent records. -/
inductive Record where
  /-- The step may follow the trails with this key. -/
  | step (key : String) (s : TrailStep)
  /-- The trails with this key are marked. -/
  | marked (key : String)
  /-- Some mark says that instances there must not be deleted. -/
  | kept (key : String)

namespace Place

/-- The way from a place to a next one, with the step that is taken. An element
with linkage points leads nowhere. -/
inductive Move (g : Graph) (ctx : Context) (purpose : Purpose) (p : Place) :
    Option TrailStep → Place → Prop where
  /-- To the element that the sub-model starts with, at the same trail. -/
  | graft {cs : List SetConstraint} {m : Model} {top : Element} :
      p.element.linkagePoints = [] → p.element.constraints g = .ok cs →
      p.element.model g = .ok m → purpose.enters m p.element = true →
      m.topElement g = .ok top → Move g ctx purpose p none ⟨top, p.trail, p.scope.extend cs⟩
  /-- To an element that a connection stands for, one step further. -/
  | connect {cs : List SetConstraint} {conns : List Connection} {c : Connection}
      {children : List Element} {child : Element} {m : Model} {n : Nat} {s : TrailStep} :
      p.element.linkagePoints = [] → p.element.constraints g = .ok cs →
      p.element.connections g = .ok conns → c ∈ conns →
      c.resolve g (p.scope.extend cs) = .ok children → child ∈ children →
      child.model g = .ok m → m.step g ctx n = .ok s →
      Move g ctx purpose p (some s) ⟨child, p.trail.extend s, p.scope.extend cs⟩

/-- The places at which a descent from a place arrives, over any chain of moves. -/
def Reaches (g : Graph) (ctx : Context) (purpose : Purpose) : Place → Place → Prop :=
  Relation.ReflTransGen fun p q => ∃ o, p.Move g ctx purpose o q

/-- The trail keys that the element of a place marks: its own, or the end of
each of its linkage paths. -/
def Marks (rules : RuleTable) (p : Place) (k : String) : Prop :=
  (p.element.linkagePoints = [] ∧ k = p.trail.key) ∨
    ∃ path ∈ p.element.linkagePoints, ∃ hops, linkageHops rules p.trail path = .ok hops ∧
      k = ((hops.getLast?.map Hop.finish).getD p.trail).key

/-- What a place notes before the descent moves on. -/
inductive NotesFirst (rules : RuleTable) (purpose : Purpose) (p : Place) : Record → Prop where
  | hop {path : LinkagePath} {hops : List Hop} {h : Hop} : purpose = .topology →
      path ∈ p.element.linkagePoints → linkageHops rules p.trail path = .ok hops → h ∈ hops →
      NotesFirst rules purpose p (.step h.start.key h.step)
  | marked {k : String} : purpose = .deletion → p.Marks rules k →
      NotesFirst rules purpose p (.marked k)
  | kept {k : String} : purpose = .deletion → p.Marks rules k → p.element.deletable = false →
      NotesFirst rules purpose p (.kept k)

/-- What a place notes, the steps of its moves included. -/
inductive Notes (g : Graph) (ctx : Context) (purpose : Purpose) (p : Place) : Record → Prop where
  | first {r : Record} : p.NotesFirst ctx.catalog.rules purpose r → Notes g ctx purpose p r
  | step {s : TrailStep} {q : Place} : p.Move g ctx purpose (some s) q →
      Notes g ctx purpose p (.step p.trail.key s)

/-- What some place at which a descent from here arrives notes. -/
def Adds (g : Graph) (ctx : Context) (purpose : Purpose) (p : Place) (r : Record) : Prop :=
  ∃ q, Reaches g ctx purpose p q ∧ q.Notes g ctx purpose r

variable {g : Graph} {ctx : Context} {purpose : Purpose}

/-- What a descent adds is noted here, or added after some move. -/
theorem adds_iff {p : Place} {r : Record} :
    p.Adds g ctx purpose r ↔
      p.Notes g ctx purpose r ∨ ∃ o q, p.Move g ctx purpose o q ∧ q.Adds g ctx purpose r := by
  constructor
  · rintro ⟨q, hpq, hr⟩
    rcases Relation.ReflTransGen.cases_head hpq with rfl | ⟨p', ⟨o, hm⟩, hp'q⟩
    · exact .inl hr
    · exact .inr ⟨o, p', hm, q, hp'q, hr⟩
  · rintro (hr | ⟨o, p', hm, q, hp'q, hr⟩)
    · exact ⟨p, .refl, hr⟩
    · exact ⟨q, .head ⟨o, hm⟩ hp'q, hr⟩

/-! ## Moves in order -/

/-- The move to an element that a connection stands for. -/
def moveTo (g : Graph) (ctx : Context) (levels : Nat) (p : Place) (scope : Scope)
    (child : Element) : Outcome (Option TrailStep × Place) := do
  let step ← (← child.model g).step g ctx levels
  let _ ← ctx.catalog.rules.require p.trail.last.nodeType step.nodeType
  .ok (some step, ⟨child, p.trail.extend step, scope⟩)

/-- The move into the sub-model, when there is one to enter. -/
def grafts (g : Graph) (purpose : Purpose) (p : Place) (scope : Scope) (m : Model) :
    Outcome (List (Option TrailStep × Place)) :=
  if purpose.enters m p.element then
    (m.topElement g).map fun top => [(none, ⟨top, p.trail, scope⟩)]
  else .ok []

/-- The moves over one connection. -/
def movesOver (g : Graph) (ctx : Context) (levels : Nat) (p : Place) (scope : Scope)
    (c : Connection) : Outcome (List (Option TrailStep × Place)) := do
  (← c.resolve g scope).mapM (moveTo g ctx levels p scope)

/-- The moves from a place, in the order in which a descent makes them. -/
def moves (g : Graph) (ctx : Context) (purpose : Purpose) (levels : Nat) (p : Place) :
    Outcome (List (Option TrailStep × Place)) :=
  if p.element.linkagePoints ≠ [] then .ok []
  else do
    let scope := p.scope.extend (← p.element.constraints g)
    let model ← p.element.model g
    let grafts ← p.grafts g purpose scope model
    let onward ← (← p.element.connections g).mapM (movesOver g ctx levels p scope)
    .ok (grafts ++ onward.flatten)

theorem moveTo_eq_ok {levels : Nat} {p : Place} {scope : Scope} {child : Element}
    {m : Option TrailStep × Place} (h : moveTo g ctx levels p scope child = .ok m) :
    ∃ model s, child.model g = .ok model ∧ model.step g ctx levels = .ok s ∧
      m = (some s, ⟨child, p.trail.extend s, scope⟩) := by
  obtain ⟨model, hmodel, h⟩ := Outcome.bind_eq_ok.mp h
  obtain ⟨s, hs, h⟩ := Outcome.bind_eq_ok.mp h
  obtain ⟨_, _, h⟩ := Outcome.bind_eq_ok.mp h
  cases h
  exact ⟨model, s, hmodel, hs, rfl⟩

theorem mem_grafts {p : Place} {scope : Scope} {m : Model}
    {ms : List (Option TrailStep × Place)} (h : p.grafts g purpose scope m = .ok ms)
    {o : Option TrailStep} {q : Place} :
    (o, q) ∈ ms ↔ purpose.enters m p.element = true ∧
      ∃ top, m.topElement g = .ok top ∧ o = none ∧ q = ⟨top, p.trail, scope⟩ := by
  unfold grafts at h
  split at h
  · next henters =>
      cases htop : m.topElement g with
      | error e => rw [htop] at h; cases h
      | ok top =>
          rw [htop] at h
          cases h
          simp [henters]
  · next henters => cases h; simp [henters]

/-- The moves in order are all moves there are. -/
theorem mem_moves {levels : Nat} {p : Place} {ms : List (Option TrailStep × Place)}
    (h : p.moves g ctx purpose levels = .ok ms) {o : Option TrailStep} {q : Place} :
    (o, q) ∈ ms ↔ p.Move g ctx purpose o q := by
  unfold moves at h
  split at h
  · next hlink =>
      cases h
      refine ⟨fun hm => (List.not_mem_nil hm).elim, fun hm => ?_⟩
      cases hm <;> contradiction
  · next hlink =>
      have hnil : p.element.linkagePoints = [] := Classical.not_not.mp hlink
      obtain ⟨cs, hcs, h⟩ := Outcome.bind_eq_ok.mp h
      obtain ⟨model, hmodel, h⟩ := Outcome.bind_eq_ok.mp h
      obtain ⟨grafts, hgrafts, h⟩ := Outcome.bind_eq_ok.mp h
      obtain ⟨conns, hconns, h⟩ := Outcome.bind_eq_ok.mp h
      obtain ⟨onward, hover, h⟩ := Outcome.bind_eq_ok.mp h
      cases h
      rw [List.mem_append, List.mem_flatten, mem_grafts hgrafts]
      -- a move and the list read the same definitions, so the readings agree
      constructor
      · rintro (⟨henters, top, htop, rfl, rfl⟩ | ⟨ms, hms, hm⟩)
        · exact .graft hnil hcs hmodel henters htop
        · obtain ⟨c, hc, hms⟩ := (Outcome.mem_mapM hover ms).mp hms
          obtain ⟨children, hchildren, hms⟩ := Outcome.bind_eq_ok.mp hms
          obtain ⟨child, hchild, hm⟩ := (Outcome.mem_mapM hms _).mp hm
          obtain ⟨_, s, hread, hs, heq⟩ := moveTo_eq_ok hm
          cases heq
          exact .connect hnil hcs hconns hc hchildren hchild hread hs
      · intro hm
        cases hm with
        | graft _ hcs' hmodel' henters htop =>
            cases hcs.symm.trans hcs'
            cases hmodel.symm.trans hmodel'
            exact .inl ⟨henters, _, htop, rfl, rfl⟩
        | connect _ hcs' hconns' hc hchildren hchild hm hs =>
            cases hcs.symm.trans hcs'
            cases hconns.symm.trans hconns'
            obtain ⟨ms, hms, hread⟩ := Outcome.mapM_reads hover hc
            obtain ⟨children', hchildren', hread⟩ := Outcome.bind_eq_ok.mp hread
            cases hchildren.symm.trans hchildren'
            obtain ⟨m, hmem, hm'⟩ := Outcome.mapM_reads hread hchild
            obtain ⟨model', s', hmodel', hs', rfl⟩ := moveTo_eq_ok hm'
            cases hm.symm.trans hmodel'
            cases Model.step_unique hs hs'
            exact .inr ⟨ms, hms, hmem⟩

end Place

end Inventory
