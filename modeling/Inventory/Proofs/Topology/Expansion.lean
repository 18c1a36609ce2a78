import Inventory.Proofs.Topology.Ordered
import Inventory.Proofs.Topology.Places

/-!
# Topology — one visit of a descent

A visit notes what its place notes first and then follows the moves of the
place in order, whatever the visits it leads to are. What is recorded only ever
grows.
-/

namespace Inventory

/-! ## What is recorded -/

namespace Descent

/-- Whether the descent has recorded something. -/
def Holds (d : Descent) : Record → Prop
  | .step k s => s ∈ d.topology.stepsAt k
  | .marked k => (d.flags.get? k).isSome = true
  | .kept k => d.flags.get? k = some false

variable {d d' : Descent} {r : Record}

theorem holds_see (id : VertexId) (trail : Trail) : (d.see id trail).Holds r ↔ d.Holds r := by
  cases r <;> rfl

theorem holds_allow {trail : Trail} {s : TrailStep} :
    (d.allow trail s).Holds r ↔ d.Holds r ∨ r = .step trail.key s := by
  cases r with
  | step k s' =>
      simp only [Holds, allow, Topology.mem_stepsAt_insert, Record.step.injEq]
      exact or_comm
  | marked k => simp [Holds, allow]
  | kept k => simp [Holds, allow]

/-- A mark is recorded, and for good when it says that instances are kept. -/
theorem holds_flag {trail : Trail} {deletable : Bool} :
    (d.flag trail deletable).Holds r ↔
      d.Holds r ∨ r = .marked trail.key ∨ (deletable = false ∧ r = .kept trail.key) := by
  cases r with
  | step k s => simp [Holds, flag]
  | marked k =>
      simp only [Holds, flag, Table.get?_put]
      by_cases hk : k = trail.key <;> simp [hk]
  | kept k =>
      simp only [Holds, flag, Table.get?_put]
      by_cases hk : k = trail.key
      · subst hk
        cases hold : d.flags.get? trail.key <;> cases deletable <;> simp
      · simp [hk]

theorem holds_allowAll {hops : List Hop} :
    (hops.foldl (fun d h => d.allow h.start h.step) d).Holds r ↔
      d.Holds r ∨ ∃ h ∈ hops, r = .step h.start.key h.step := by
  induction hops generalizing d with
  | nil => simp
  | cons h hops ih => simp [ih, holds_allow, or_assoc]

/-- A fold records what its steps record. -/
theorem holds_foldlM {α : Type} {f : Descent → α → Outcome Descent} {N : α → Record → Prop}
    {xs : List α} (hf : ∀ x ∈ xs, ∀ {d d'}, f d x = .ok d' → ∀ r, d'.Holds r ↔ d.Holds r ∨ N x r)
    (h : xs.foldlM f d = .ok d') : d'.Holds r ↔ d.Holds r ∨ ∃ x ∈ xs, N x r := by
  induction xs generalizing d with
  | nil => cases h; simp
  | cons x xs ih =>
      obtain ⟨d₁, hx, h⟩ := Outcome.foldlM_cons_eq_ok.mp h
      rw [ih (fun y hy => hf y (List.mem_cons_of_mem _ hy)) h, hf x List.mem_cons_self hx]
      simp [or_assoc]

/-- What neither a step nor a mark can undo. -/
structure Stable (I : Descent → Prop) : Prop where
  allow : ∀ {d} trail s, I d → I (d.allow trail s)
  flag : ∀ {d} trail deletable, I d → I (d.flag trail deletable)

theorem stable_holds (r : Record) : Stable (·.Holds r) where
  allow _ _ h := holds_allow.mpr (.inl h)
  flag _ _ h := holds_flag.mpr (.inl h)

theorem Stable.and {I J : Descent → Prop} (hI : Stable I) (hJ : Stable J) :
    Stable fun d => I d ∧ J d where
  allow trail s h := ⟨hI.allow trail s h.1, hJ.allow trail s h.2⟩
  flag trail deletable h := ⟨hI.flag trail deletable h.1, hJ.flag trail deletable h.2⟩

theorem Stable.recordHops {I : Descent → Prop} (hI : Stable I) {purpose : Purpose} {e : Element}
    {trail : Trail} {hops : List Hop} (h : I d) : I (d.recordHops purpose e trail hops) := by
  cases purpose with
  | deletion => exact hI.flag _ _ h
  | topology =>
      unfold Descent.recordHops
      induction hops generalizing d with
      | nil => exact h
      | cons hop hops ih => exact ih (hI.allow _ _ h)

end Descent

/-! ## The first notes -/

namespace Place

/-- Record what a place notes first. -/
def noteFirst (rules : RuleTable) (purpose : Purpose) (p : Place) (d : Descent) :
    Outcome Descent :=
  if p.element.linkagePoints ≠ [] then d.recordLinkage rules purpose p.element p.trail
  else .ok (if purpose = .deletion then d.flag p.trail p.element.deletable else d)

variable {rules : RuleTable} {purpose : Purpose} {p : Place} {d d' : Descent}

theorem recordLinkage_step {e : Element} {trail : Trail} {path : LinkagePath} :
    (do let hops ← linkageHops rules trail path; .ok (d.recordHops purpose e trail hops)) =
        (.ok d' : Outcome Descent) ↔
      ∃ hops, linkageHops rules trail path = .ok hops ∧
        d' = d.recordHops purpose e trail hops := by
  rw [Outcome.bind_eq_ok]
  simp [eq_comm]

theorem stable_noteFirst {I : Descent → Prop} (hI : Descent.Stable I)
    (h : p.noteFirst rules purpose d = .ok d') (hd : I d) : I d' := by
  unfold noteFirst at h
  split at h
  · refine Outcome.foldlM_keeps (fun path _ d₁ d₂ hstep h₁ => ?_) h hd
    obtain ⟨hops, _, rfl⟩ := recordLinkage_step.mp hstep
    exact hI.recordHops h₁
  · cases h
    split
    · exact hI.flag _ _ hd
    · exact hd

/-- What one linkage path of a place notes: its hops, or how its end is marked. -/
def HopsNote (p : Place) (hops : List Hop) : Purpose → Record → Prop
  | .topology, r => ∃ h ∈ hops, r = .step h.start.key h.step
  | .deletion, r =>
      r = .marked ((hops.getLast?.map Hop.finish).getD p.trail).key ∨
        (p.element.deletable = false ∧
          r = .kept ((hops.getLast?.map Hop.finish).getD p.trail).key)

theorem holds_recordHops {hops : List Hop} {r : Record} :
    (d.recordHops purpose p.element p.trail hops).Holds r ↔
      d.Holds r ∨ p.HopsNote hops purpose r := by
  cases purpose with
  | topology => exact Descent.holds_allowAll
  | deletion => exact Descent.holds_flag

/-- With linkage paths, a place notes first what each of them notes. -/
theorem notesFirst_of_linkage (hlink : p.element.linkagePoints ≠ []) {r : Record} :
    p.NotesFirst rules purpose r ↔ ∃ path ∈ p.element.linkagePoints,
      ∃ hops, linkageHops rules p.trail path = .ok hops ∧ p.HopsNote hops purpose r := by
  constructor
  · intro hn
    cases hn with
    | hop ht hpath hhops hmem =>
        subst ht
        exact ⟨_, hpath, _, hhops, _, hmem, rfl⟩
    | marked hd hm =>
        subst hd
        obtain ⟨path, hpath, hops, hhops, rfl⟩ := hm.resolve_left fun hn => hlink hn.1
        exact ⟨path, hpath, hops, hhops, .inl rfl⟩
    | kept hd hm hkept =>
        subst hd
        obtain ⟨path, hpath, hops, hhops, rfl⟩ := hm.resolve_left fun hn => hlink hn.1
        exact ⟨path, hpath, hops, hhops, .inr ⟨hkept, rfl⟩⟩
  · rintro ⟨path, hpath, hops, hhops, hn⟩
    cases purpose with
    | topology =>
        obtain ⟨hop, hmem, rfl⟩ := hn
        exact .hop rfl hpath hhops hmem
    | deletion =>
        have hmarks : p.Marks rules ((hops.getLast?.map Hop.finish).getD p.trail).key :=
          .inr ⟨path, hpath, hops, hhops, rfl⟩
        obtain rfl | ⟨hkept, rfl⟩ := hn
        · exact .marked rfl hmarks
        · exact .kept rfl hmarks hkept

/-- Without linkage paths, a place only marks its own trail. -/
theorem notesFirst_of_plain (hnil : p.element.linkagePoints = []) {r : Record} :
    p.NotesFirst rules purpose r ↔ purpose = .deletion ∧
      (r = .marked p.trail.key ∨ (p.element.deletable = false ∧ r = .kept p.trail.key)) := by
  have hmarks : ∀ k, p.Marks rules k ↔ k = p.trail.key := by
    intro k
    simp [Marks, hnil]
  constructor
  · intro hn
    cases hn with
    | hop _ hpath _ _ => simp [hnil] at hpath
    | marked hd hm => exact ⟨hd, .inl (by rw [(hmarks _).mp hm])⟩
    | kept hd hm hkept => exact ⟨hd, .inr ⟨hkept, by rw [(hmarks _).mp hm]⟩⟩
  · rintro ⟨hd, rfl | ⟨hkept, rfl⟩⟩
    · exact .marked hd ((hmarks _).mpr rfl)
    · exact .kept hd ((hmarks _).mpr rfl) hkept

/-- Exactly what a place notes first is recorded. -/
theorem holds_noteFirst (h : p.noteFirst rules purpose d = .ok d') {r : Record} :
    d'.Holds r ↔ d.Holds r ∨ p.NotesFirst rules purpose r := by
  unfold noteFirst at h
  split at h
  · next hlink =>
      rw [notesFirst_of_linkage hlink]
      refine Descent.holds_foldlM (N := fun path r => ∃ hops,
        linkageHops rules p.trail path = .ok hops ∧ p.HopsNote hops purpose r)
        (fun path _ d₁ d₂ hstep r => ?_) h
      obtain ⟨hops, hhops, rfl⟩ := recordLinkage_step.mp hstep
      simp only [holds_recordHops, hhops, Except.ok.injEq, exists_eq_left']
  · next hlink =>
      rw [notesFirst_of_plain (Classical.not_not.mp hlink)]
      cases h
      cases purpose with
      | topology => simp
      | deletion => simp [Descent.holds_flag]

/-- Noting succeeds wherever it has succeeded once. -/
theorem noteFirst_total (h : p.noteFirst rules purpose d = .ok d') (d₁ : Descent) :
    ∃ d₂, p.noteFirst rules purpose d₁ = .ok d₂ := by
  unfold noteFirst at h ⊢
  split at h
  · next hlink =>
      rw [if_pos hlink]
      refine Outcome.foldlM_total (fun path hpath b => ?_) d₁
      obtain ⟨_, _, hstep⟩ := Outcome.foldlM_steps h hpath
      obtain ⟨hops, hhops, _⟩ := recordLinkage_step.mp hstep
      exact ⟨_, recordLinkage_step.mpr ⟨hops, hhops, rfl⟩⟩
  · next hlink =>
      rw [if_neg hlink]
      exact ⟨_, rfl⟩

end Place

/-! ## A visit -/

section

variable (g : Graph) (ctx : Context) (purpose : Purpose) (levels : Nat)
  (visit : Scope → Element → Trail → Descent → Outcome Descent)

/-- Visit an element that a connection stands for. -/
def visitChild (scope : Scope) (trail : Trail) (d : Descent) (child : Element) :
    Outcome Descent := do
  let step ← (← child.model g).step g ctx levels
  let _ ← ctx.catalog.rules.require trail.last.nodeType step.nodeType
  visit scope child (trail.extend step) (d.allow trail step)

/-- Visit the elements that a connection stands for. -/
def visitOver (scope : Scope) (trail : Trail) (d : Descent) (c : Connection) :
    Outcome Descent := do
  (← c.resolve g scope).foldlM (visitChild g ctx levels visit scope trail) d

/-- A visit of one place, given what the visits below it do. -/
def expand (scope : Scope) (e : Element) (trail : Trail) (d : Descent) : Outcome Descent :=
  if e.linkagePoints ≠ [] then d.recordLinkage ctx.catalog.rules purpose e trail
  else do
    let d := if purpose = .deletion then d.flag trail e.deletable else d
    let scope := scope.extend (← e.constraints g)
    let model ← e.model g
    let d ← if purpose.enters model e then do visit scope (← model.topElement g) trail d
      else .ok d
    (← e.connections g).foldlM (visitOver g ctx levels visit scope trail) d

/-- Follow a move from a place. -/
def Place.follow (p : Place) (d : Descent) (m : Option TrailStep × Place) : Outcome Descent :=
  visit m.2.scope m.2.element m.2.trail (match m.1 with
    | some s => d.allow p.trail s
    | none => d)

end

/-- A descent visits a place unless it is below itself or has been visited. -/
theorem descend_succ (g : Graph) (ctx : Context) (purpose : Purpose) (levels : Nat)
    (ancestors : List VertexId) (scope : Scope) (e : Element) (trail : Trail) (d : Descent) :
    descend g ctx purpose (levels + 1) ancestors scope e trail d =
      if e.vertexId ∈ ancestors then .error (.modelCycle e.vertexId)
      else if (e.vertexId, trail.key) ∈ d.seen then .ok d
      else expand g ctx purpose levels (descend g ctx purpose levels (e.vertexId :: ancestors))
        scope e trail (d.see e.vertexId trail) := rfl

variable {g : Graph} {ctx : Context} {purpose : Purpose} {levels : Nat}
  {visit : Scope → Element → Trail → Descent → Outcome Descent} {d d' : Descent}

theorem visitChild_eq_ok {p : Place} {scope : Scope} {child : Element} :
    visitChild g ctx levels visit scope p.trail d child = .ok d' ↔
      ∃ m, p.moveTo g ctx levels scope child = .ok m ∧ p.follow visit d m = .ok d' := by
  unfold visitChild Place.moveTo
  simp only [Outcome.bind_eq_ok]
  constructor
  · rintro ⟨m, hm, s, hs, rule, hrule, h⟩
    exact ⟨_, ⟨m, hm, s, hs, rule, hrule, rfl⟩, h⟩
  · rintro ⟨_, ⟨m, hm, s, hs, rule, hrule, ⟨⟩⟩, h⟩
    exact ⟨m, hm, s, hs, rule, hrule, h⟩

theorem visitOver_eq_ok {p : Place} {scope : Scope} {c : Connection} :
    visitOver g ctx levels visit scope p.trail d c = .ok d' ↔
      ∃ ms, p.movesOver g ctx levels scope c = .ok ms ∧
        ms.foldlM (p.follow visit) d = .ok d' := by
  have hfold : ∀ {children : List Element},
      children.foldlM (visitChild g ctx levels visit scope p.trail) d = .ok d' ↔
        ∃ ms, children.mapM (p.moveTo g ctx levels scope) = .ok ms ∧
          ms.foldlM (p.follow visit) d = .ok d' := by
    refine Outcome.foldlM_of_reads fun child d d' => ?_
    exact visitChild_eq_ok
  unfold visitOver Place.movesOver
  simp only [Outcome.bind_eq_ok, hfold]
  constructor
  · rintro ⟨children, hchildren, ms, hms, h⟩
    exact ⟨ms, ⟨children, hchildren, hms⟩, h⟩
  · rintro ⟨ms, ⟨children, hchildren, hms⟩, h⟩
    exact ⟨children, hchildren, ms, hms, h⟩

/-- Visiting the sub-model, when there is one to enter, and then going on. -/
theorem visitGraft_eq_ok {p : Place} {scope : Scope} {m : Model}
    {rest : Descent → Outcome Descent} :
    (if purpose.enters m p.element = true then
        m.topElement g >>= fun top => visit scope top p.trail d >>= rest
      else Except.ok d >>= rest) = .ok d' ↔
      ∃ ms d₁, p.grafts g purpose scope m = .ok ms ∧ ms.foldlM (p.follow visit) d = .ok d₁ ∧
        rest d₁ = .ok d' := by
  unfold Place.grafts
  split
  · rw [Outcome.bind_eq_ok]
    constructor
    · rintro ⟨top, htop, h⟩
      obtain ⟨d₁, hvisit, h⟩ := Outcome.bind_eq_ok.mp h
      exact ⟨[(none, ⟨top, p.trail, scope⟩)], d₁, by rw [htop]; rfl,
        Outcome.foldlM_cons_eq_ok.mpr ⟨d₁, hvisit, rfl⟩, h⟩
    · rintro ⟨ms, d₁, hms, hfold, h⟩
      cases htop : m.topElement g with
      | error e => rw [htop] at hms; cases hms
      | ok top =>
          rw [htop] at hms
          cases hms
          obtain ⟨d₂, hvisit, hnil⟩ := Outcome.foldlM_cons_eq_ok.mp hfold
          cases hnil
          exact ⟨top, rfl, Outcome.bind_eq_ok.mpr ⟨d₁, hvisit, h⟩⟩
  · constructor
    · exact fun h => ⟨[], d, rfl, rfl, h⟩
    · rintro ⟨ms, d₁, hms, hfold, h⟩
      cases hms
      cases hfold
      exact h

/-- A visit notes what comes first, and follows the moves in order. -/
theorem expand_eq_ok {p : Place} :
    expand g ctx purpose levels visit p.scope p.element p.trail d = .ok d' ↔
      ∃ d₁ ms, p.noteFirst ctx.catalog.rules purpose d = .ok d₁ ∧
        p.moves g ctx purpose levels = .ok ms ∧ ms.foldlM (p.follow visit) d₁ = .ok d' := by
  unfold expand Place.noteFirst Place.moves
  split
  · next hlink =>
      constructor
      · exact fun h => ⟨d', [], h, rfl, rfl⟩
      · rintro ⟨d₁, ms, h, hms, hd'⟩
        cases hms
        cases hd'
        exact h
  · next hlink =>
      have hfold : ∀ {scope} {conns : List Connection} {d : Descent},
          conns.foldlM (visitOver g ctx levels visit scope p.trail) d = .ok d' ↔
            ∃ onward, conns.mapM (p.movesOver g ctx levels scope) = .ok onward ∧
              onward.flatten.foldlM (p.follow visit) d = .ok d' := by
        intro scope conns d
        simp only [Outcome.foldlM_flatten]
        refine Outcome.foldlM_of_reads fun c d d' => ?_
        exact visitOver_eq_ok
      -- the reads do not depend on what is recorded, so they can all come first
      simp only [Outcome.bind_eq_ok, visitGraft_eq_ok, hfold]
      constructor
      · rintro ⟨cs, hcs, m, hm, grafts, d₁, hgrafts, hd₁, conns, hconns, onward, hover, h⟩
        exact ⟨_, _, rfl, ⟨cs, hcs, m, hm, grafts, hgrafts, conns, hconns, onward, hover, rfl⟩,
          by rw [List.foldlM_append]; exact Outcome.bind_eq_ok.mpr ⟨d₁, hd₁, h⟩⟩
      · rintro ⟨_, _, ⟨⟩, ⟨cs, hcs, m, hm, grafts, hgrafts, conns, hconns, onward, hover, ⟨⟩⟩, h⟩
        rw [List.foldlM_append] at h
        obtain ⟨d₁, hd₁, h⟩ := Outcome.bind_eq_ok.mp h
        exact ⟨cs, hcs, m, hm, grafts, d₁, hgrafts, hd₁, conns, hconns, onward, hover, h⟩

end Inventory
