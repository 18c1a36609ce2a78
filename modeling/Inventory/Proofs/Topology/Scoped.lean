import Inventory.Proofs.Topology.Flags

/-!
# Topology — which set stands for a set

A descent may note every element set that it expands, with the chain of elements
that led to it, from the top element over sub-models and connections down to the
one that expands the set. The notes change nothing, and they show that the
replacements in force are those of the chain: an element that is not on it has no
part in what a set is expanded to.
-/

namespace Inventory

/-! ## What chains say -/

/-- The replacement that the first of an element's constraints on a set names. -/
def Element.replacement? (g : Graph) (uuid : String) (e : Element) : Option ElementSet :=
  match e.constraints g with
  | .ok cs => (cs.find? (·.replaced == uuid)).map (·.replacement)
  | .error _ => none

/-- What stands for a set below a chain of elements, the outermost first: the
replacement of the first element that names one, or the set itself. -/
def ElementSet.below (g : Graph) (chain : List Element) (s : ElementSet) : ElementSet :=
  (chain.findSome? (Element.replacement? g s.uuid)).getD s

/-- The members of all choice sets of a set, in order. -/
def ElementSet.members (g : Graph) (s : ElementSet) : Outcome (List Element) := do
  let choices ← s.choices g
  .ok (← choices.mapM (ChoiceSet.members g)).flatten

/-- The elements that a connection at the end of a chain leads to. -/
def Connection.elementsBelow (g : Graph) (chain : List Element) :
    Connection → Outcome (List Element)
  | .element e => .ok [e]
  | .choice c => c.members g
  | .set s => (s.below g chain).members g

/-- The elements that lead from the top one to another: an element is followed by
the top element of the sub-model that it stands for, when that is entered, and by
the elements that it connects to. -/
inductive Chain (g : Graph) (purpose : Purpose) (top : Element) : List Element → Prop where
  | top : Chain g purpose top [top]
  | graft {above : List Element} {e t : Element} {m : Model} :
      Chain g purpose top (above ++ [e]) → e.model g = .ok m → purpose.enters m e = true →
      m.topElement g = .ok t → Chain g purpose top (above ++ [e] ++ [t])
  | child {above : List Element} {e child : Element} {connections : List Connection}
      {c : Connection} {es : List Element} :
      Chain g purpose top (above ++ [e]) → e.connections g = .ok connections → c ∈ connections →
      c.elementsBelow g (above ++ [e]) = .ok es → child ∈ es →
      Chain g purpose top (above ++ [e] ++ [child])

/-! ## Scopes of chains -/

theorem Scope.replacement?_add (s : Scope) (c : SetConstraint) (uuid : String) :
    (s.add c).replacement? uuid =
      (s.replacement? uuid).or (if c.replaced == uuid then some c.replacement else none) := by
  unfold add replacement? Table.contains
  by_cases huuid : c.replaced = uuid
  · subst huuid
    cases h : s.replacements.get? c.replaced with
    | none => simp [Table.get?_put]
    | some old => simp [h]
  · cases s.replacements.get? c.replaced with
    | none => simp [Table.get?_put, huuid, Ne.symm huuid]
    | some old => simp [huuid]

/-- The first constraint on a set adds its replacement, unless there is one. -/
theorem Scope.replacement?_extend (s : Scope) (cs : List SetConstraint) (uuid : String) :
    (s.extend cs).replacement? uuid =
      (s.replacement? uuid).or ((cs.find? (·.replaced == uuid)).map (·.replacement)) := by
  unfold extend
  induction cs generalizing s with
  | nil => simp
  | cons c cs ih =>
      rw [List.foldl_cons, ih, replacement?_add, List.find?_cons]
      cases c.replaced == uuid with
      | false => simp
      | true => simp

/-- The replacements of the scope are those of a chain. -/
def Scope.InForce (g : Graph) (scope : Scope) (chain : List Element) : Prop :=
  ∀ uuid, scope.replacement? uuid = chain.findSome? (Element.replacement? g uuid)

theorem Scope.inForce_empty (g : Graph) : ({} : Scope).InForce g [] := by
  intro uuid
  rfl

/-- Extended by the constraints of one more element, a scope is that of the longer
chain. -/
theorem Scope.InForce.extend {g : Graph} {scope : Scope} {above : List Element} {e : Element}
    {cs : List SetConstraint} (h : scope.InForce g above) (hcs : e.constraints g = .ok cs) :
    (scope.extend cs).InForce g (above ++ [e]) := by
  intro uuid
  rw [replacement?_extend, h, List.findSome?_append]
  simp [Element.replacement?, hcs]

theorem Connection.resolve_eq {g : Graph} {scope : Scope} {chain : List Element}
    (hscope : scope.InForce g chain) (c : Connection) :
    c.resolve g scope = c.elementsBelow g chain := by
  cases c with
  | element e => rfl
  | choice c => rfl
  | set s =>
      have hstands : scope.effective s = s.below g chain := by
        unfold Scope.effective ElementSet.below
        rw [hscope]
      show (scope.effective s).members g = (s.below g chain).members g
      rw [hstands]

/-! ## Notes -/

/-- An element set that was expanded, below a chain of elements, and what it was
expanded to. -/
structure Expansion where
  chain : List Element
  set : ElementSet
  elements : Outcome (List Element)
  deriving DecidableEq

/-- A computation that notes expansions, the latest first, also before it fails. -/
def Noting (α : Type) : Type := List Expansion → Outcome α × List Expansion

namespace Noting

variable {α β : Type}

instance : Monad Noting where
  pure a notes := (.ok a, notes)
  bind x f notes := match x notes with
    | (.ok a, notes) => f a notes
    | (.error e, notes) => (.error e, notes)

/-- A computation that notes nothing. -/
def plain (x : Outcome α) : Noting α := fun notes => (x, notes)

/-- The computation that notes one expansion. -/
def note (x : Expansion) : Noting Unit := fun notes => (.ok (), x :: notes)

/-- The computation ends as the other one, which takes no notes, and what it notes
has a property. -/
def Follows (P : Expansion → Prop) (x : Noting α) (y : Outcome α) : Prop :=
  ∀ notes, (x notes).1 = y ∧ ∀ n ∈ (x notes).2, n ∈ notes ∨ P n

variable {P : Expansion → Prop}

theorem follows_plain (x : Outcome α) : (plain x).Follows P x :=
  fun _ => ⟨rfl, fun _ hn => .inl hn⟩

theorem follows_pure (a : α) : (pure a : Noting α).Follows P (.ok a) :=
  fun _ => ⟨rfl, fun _ hn => .inl hn⟩

theorem Follows.bind {x : Noting α} {y : Outcome α} {f : α → Noting β} {k : α → Outcome β}
    (hx : x.Follows P y) (hf : ∀ a, y = .ok a → (f a).Follows P (k a)) :
    (x >>= f).Follows P (y >>= k) := by
  intro notes
  have hrun : (x >>= f) notes = match x notes with
    | (.ok a, notes) => f a notes
    | (.error e, notes) => (.error e, notes) := rfl
  obtain ⟨hfirst, hnotes⟩ := hx notes
  rw [hrun]
  cases hresult : x notes with
  | mk r notes₁ =>
      rw [hresult] at hfirst hnotes
      cases hfirst
      cases r with
      | error e => exact ⟨rfl, hnotes⟩
      | ok a =>
          obtain ⟨hlast, hmore⟩ := hf a rfl notes₁
          refine ⟨hlast, ?_⟩
          intro n hn
          rcases hmore n hn with hn | hn
          · exact hnotes n hn
          · exact .inr hn

/-- What is noted first has the property, and then nothing is changed. -/
theorem Follows.note {n : Expansion} {x : Noting α} {y : Outcome α} (hn : P n)
    (hx : x.Follows P y) : (do note n; x).Follows P y := by
  intro notes
  obtain ⟨hresult, hnotes⟩ := hx (n :: notes)
  refine ⟨hresult, ?_⟩
  intro n' hn'
  rcases hnotes n' hn' with hn' | hn'
  · rcases List.mem_cons.mp hn' with rfl | hn'
    · exact .inr hn
    · exact .inl hn'
  · exact .inr hn'

theorem Follows.ite {p : Prop} [Decidable p] {x x' : Noting α} {y y' : Outcome α}
    (hx : p → x.Follows P y) (hx' : ¬ p → x'.Follows P y') :
    (if p then x else x').Follows P (if p then y else y') := by
  by_cases h : p
  · rw [if_pos h, if_pos h]
    exact hx h
  · rw [if_neg h, if_neg h]
    exact hx' h

theorem Follows.foldlM {f : β → α → Noting β} {k : β → α → Outcome β} {xs : List α}
    (h : ∀ a ∈ xs, ∀ b, (f b a).Follows P (k b a)) (b : β) :
    (xs.foldlM f b).Follows P (xs.foldlM k b) := by
  induction xs generalizing b with
  | nil => exact follows_pure b
  | cons a xs ih =>
      rw [List.foldlM_cons, List.foldlM_cons]
      apply (h a List.mem_cons_self b).bind
      intro b' _
      exact ih (fun a' ha' => h a' (List.mem_cons_of_mem _ ha')) b'

end Noting

/-! ## The descent that takes notes -/

section

variable (g : Graph) (ctx : Context) (purpose : Purpose) (levels : Nat) (chain : List Element)
  (visit : Scope → Element → Trail → Descent → Noting Descent)

/-- What a connection stands for; when it is a set, this is noted. -/
def Connection.resolveNoting (scope : Scope) : Connection → Noting (List Element)
  | .set s => do
    let elements := Connection.resolve g scope (.set s)
    Noting.note ⟨chain, s, elements⟩
    Noting.plain elements
  | c => Noting.plain (c.resolve g scope)

/-- The noting visit of a child, one step further. -/
def visitChildNoting (scope : Scope) (trail : Trail) (d : Descent) (child : Element) :
    Noting Descent := do
  let step ← .plain ((← .plain (child.model g)).step g ctx levels)
  let _ ← .plain (ctx.catalog.rules.require trail.last.nodeType step.nodeType)
  visit scope child (trail.extend step) (d.allow trail step)

/-- The noting visit of all that a connection stands for. -/
def visitOverNoting (scope : Scope) (trail : Trail) (d : Descent) (c : Connection) :
    Noting Descent := do
  (← c.resolveNoting g chain scope).foldlM (visitChildNoting g ctx levels visit scope trail) d

/-- A visit of the last element of a chain. -/
def expandNoting (scope : Scope) (e : Element) (trail : Trail) (d : Descent) : Noting Descent :=
  if e.linkagePoints ≠ [] then .plain (d.recordLinkage ctx.catalog.rules purpose e trail)
  else do
    let d := if purpose = .deletion then d.flag trail e.deletable else d
    let scope := scope.extend (← .plain (e.constraints g))
    let model ← .plain (e.model g)
    let d ← if purpose.enters model e then do
        visit scope (← .plain (model.topElement g)) trail d
      else .plain (.ok d)
    (← .plain (e.connections g)).foldlM (visitOverNoting g ctx levels chain visit scope trail) d

end

/-- The descent with the elements above, the outermost first, in the place of their
ids. -/
def descendNoting (g : Graph) (ctx : Context) (purpose : Purpose) :
    Nat → List Element → Scope → Element → Trail → Descent → Noting Descent
  | 0, _, _, _, _, _ => .plain (.error (.modelTooDeep ctx.limits.levels))
  | levels + 1, above, scope, e, trail, d =>
    if e.vertexId ∈ above.map (·.vertexId) then .plain (.error (.modelCycle e.vertexId))
    else if (e.vertexId, trail.key) ∈ d.seen then .plain (.ok d)
    else expandNoting g ctx purpose levels (above ++ [e])
      (descendNoting g ctx purpose levels (above ++ [e])) scope e trail (d.see e.vertexId trail)

theorem descendNoting_succ (g : Graph) (ctx : Context) (purpose : Purpose) (levels : Nat)
    (above : List Element) (scope : Scope) (e : Element) (trail : Trail) (d : Descent) :
    descendNoting g ctx purpose (levels + 1) above scope e trail d =
      if e.vertexId ∈ above.map (·.vertexId) then .plain (.error (.modelCycle e.vertexId))
      else if (e.vertexId, trail.key) ∈ d.seen then .plain (.ok d)
      else expandNoting g ctx purpose levels (above ++ [e])
        (descendNoting g ctx purpose levels (above ++ [e])) scope e trail
        (d.see e.vertexId trail) := rfl

/-- An expansion in a descent from the top element: its chain leads there, the last
element of the chain connects to the set, and the elements are the members of what
stands for the set below the chain. -/
structure Expansion.ByChain (g : Graph) (purpose : Purpose) (top : Element) (x : Expansion) :
    Prop where
  chain : Chain g purpose top x.chain
  connects : ∃ e cs, x.chain.getLast? = some e ∧ e.connections g = .ok cs ∧
    Connection.set x.set ∈ cs
  elements : x.elements = (x.set.below g x.chain).members g

section

variable {g : Graph} {ctx : Context} {purpose : Purpose} {top : Element} {levels : Nat}
  {above : List Element} {e : Element} {scope : Scope}
  {visit : Scope → Element → Trail → Descent → Noting Descent}
  {visit' : Scope → Element → Trail → Descent → Outcome Descent}

theorem Connection.resolveNoting_follows {cs : List Connection} {c : Connection}
    (hchain : Chain g purpose top (above ++ [e])) (hcs : e.connections g = .ok cs) (hc : c ∈ cs)
    (hscope : scope.InForce g (above ++ [e])) :
    (c.resolveNoting g (above ++ [e]) scope).Follows (Expansion.ByChain g purpose top)
      (c.resolve g scope) := by
  cases c with
  | element e' => exact Noting.follows_plain _
  | choice c => exact Noting.follows_plain _
  | set s =>
      apply Noting.Follows.note _ (Noting.follows_plain _)
      exact ⟨hchain, ⟨e, cs, by simp, hcs, hc⟩, Connection.resolve_eq hscope (.set s)⟩

/-- What the last element of a chain connects to is visited as without notes when the
visits below it are. -/
theorem visitOverNoting_follows {cs : List Connection} {c : Connection} {trail : Trail}
    (hchain : Chain g purpose top (above ++ [e])) (hcs : e.connections g = .ok cs) (hc : c ∈ cs)
    (hscope : scope.InForce g (above ++ [e]))
    (hvisit : ∀ {child trail d}, Chain g purpose top (above ++ [e] ++ [child]) →
      (visit scope child trail d).Follows (Expansion.ByChain g purpose top)
        (visit' scope child trail d))
    (d : Descent) :
    (visitOverNoting g ctx levels (above ++ [e]) visit scope trail d c).Follows
      (Expansion.ByChain g purpose top) (visitOver g ctx levels visit' scope trail d c) := by
  apply Noting.Follows.bind (Connection.resolveNoting_follows hchain hcs hc hscope)
  intro children hchildren
  rw [Connection.resolve_eq hscope] at hchildren
  apply Noting.Follows.foldlM
  intro child hchild d
  apply Noting.Follows.bind (Noting.follows_plain _)
  intro model _
  apply Noting.Follows.bind (Noting.follows_plain _)
  intro step _
  apply Noting.Follows.bind (Noting.follows_plain _)
  intro _ _
  exact hvisit (hchain.child hcs hc hchildren hchild)

/-- A visit goes as without notes when the visits below it do: those of the sub-model
and of the connections are all made in the scope of the chain. -/
theorem expandNoting_follows {trail : Trail} (hchain : Chain g purpose top (above ++ [e]))
    (hscope : scope.InForce g above)
    (hvisit : ∀ {scope child trail d}, Chain g purpose top (above ++ [e] ++ [child]) →
      scope.InForce g (above ++ [e]) →
      (visit scope child trail d).Follows (Expansion.ByChain g purpose top)
        (visit' scope child trail d))
    (d : Descent) :
    (expandNoting g ctx purpose levels (above ++ [e]) visit scope e trail d).Follows
      (Expansion.ByChain g purpose top) (expand g ctx purpose levels visit' scope e trail d) := by
  apply Noting.Follows.ite (fun _ => Noting.follows_plain _)
  intro _
  apply Noting.Follows.bind (Noting.follows_plain _)
  intro cs hcs
  have hbelow : (scope.extend cs).InForce g (above ++ [e]) := hscope.extend hcs
  apply Noting.Follows.bind (Noting.follows_plain _)
  intro m hm
  have honward : ∀ d, (Noting.plain (e.connections g) >>= fun connections =>
        connections.foldlM
          (visitOverNoting g ctx levels (above ++ [e]) visit (scope.extend cs) trail) d).Follows
      (Expansion.ByChain g purpose top)
      (e.connections g >>= fun connections =>
        connections.foldlM (visitOver g ctx levels visit' (scope.extend cs) trail) d) := by
    intro d
    apply Noting.Follows.bind (Noting.follows_plain _)
    intro connections hconnections
    apply Noting.Follows.foldlM
    intro c hc d
    exact visitOverNoting_follows hchain hconnections hc hbelow
      (fun hchild => hvisit hchild hbelow) d
  apply Noting.Follows.ite
  · intro henters
    apply Noting.Follows.bind (Noting.follows_plain _)
    intro t ht
    apply Noting.Follows.bind (hvisit (hchain.graft hm henters ht) hbelow)
    intro d _
    exact honward d
  · intro _
    apply Noting.Follows.bind (Noting.follows_plain _)
    intro d _
    exact honward d

/-- **The step lemma**: below a chain whose scope is the one in force, a descent goes
as without notes and expands its sets by the chain. -/
theorem descendNoting_follows {trail : Trail} {d : Descent}
    (hchain : Chain g purpose top (above ++ [e]))
    (hscope : scope.InForce g above) :
    (descendNoting g ctx purpose levels above scope e trail d).Follows
      (Expansion.ByChain g purpose top)
      (descend g ctx purpose levels (above.map (·.vertexId)).reverse scope e trail d) := by
  induction levels generalizing above scope e trail d with
  | zero => exact Noting.follows_plain _
  | succ levels ih =>
      have hids : e.vertexId :: (above.map (·.vertexId)).reverse =
          ((above ++ [e]).map (·.vertexId)).reverse := by simp
      rw [descendNoting_succ, descend_succ, hids]
      simp only [List.mem_reverse]
      apply Noting.Follows.ite (fun _ => Noting.follows_plain _)
      intro _
      apply Noting.Follows.ite (fun _ => Noting.follows_plain _)
      intro _
      exact expandNoting_follows hchain hscope (fun hchild hbelow => ih hchild hbelow) _

end

/-! ## Whole descents -/

/-- A descent from an element at the root of a topology, with its notes. -/
def descendFromNoting (g : Graph) (ctx : Context) (purpose : Purpose) (top : Element)
    (root : TrailStep) : Outcome Descent × List Expansion :=
  descendNoting g ctx purpose (ctx.levelsFrom 0) [] {} top ⟨root, []⟩ { topology := ⟨root, ∅⟩ } []

/-- **The replacements in force are those of the chain of ancestors.** Whatever a
descent is for and whether it succeeds, taking notes changes nothing in it, and each
set that it expands is noted with a chain of elements from the top one down to one
that connects to the set. It is expanded to the members, in order, of all choice sets
of one set: of the replacement that the outermost element of the chain to name the set
has for it in the first of its constraints that do, and of the set itself when no
element of the chain names it. -/
theorem expansions_byChain (g : Graph) (ctx : Context) (purpose : Purpose) (top : Element)
    (root : TrailStep) :
    (descendFromNoting g ctx purpose top root).1 = descendFrom g ctx purpose top root ∧
      ∀ x ∈ (descendFromNoting g ctx purpose top root).2, x.ByChain g purpose top := by
  have hfollows : (descendNoting g ctx purpose (ctx.levelsFrom 0) [] {} top ⟨root, []⟩
      { topology := ⟨root, ∅⟩ }).Follows (Expansion.ByChain g purpose top)
      (descend g ctx purpose (ctx.levelsFrom 0) [] {} top ⟨root, []⟩ { topology := ⟨root, ∅⟩ }) :=
    descendNoting_follows .top (Scope.inForce_empty g)
  obtain ⟨hsame, hnotes⟩ := hfollows []
  refine ⟨hsame, ?_⟩
  intro x hx
  exact (hnotes x hx).resolve_left List.not_mem_nil

/-! ### A replacement two elements up -/

namespace Pinning

def strict : Element := ⟨"strict", none, true, []⟩

def shared : Element := ⟨"shared", none, true, []⟩

def pinned : Element := ⟨"pinned", none, true, []⟩

/-- The shared element expands its set to what the strict one above it pins. -/
theorem expansions_byChain_strictFirst :
    (descendFromNoting strictFirst context .topology top ⟨"a", none⟩).2 =
        [⟨[top, strict, shared], ⟨"set", "set"⟩, .ok [pinned]⟩] ∧
      Expansion.ByChain strictFirst .topology top
        ⟨[top, strict, shared], ⟨"set", "set"⟩, .ok [pinned]⟩ := by
  have hnotes : (descendFromNoting strictFirst context .topology top ⟨"a", none⟩).2 =
      [⟨[top, strict, shared], ⟨"set", "set"⟩, .ok [pinned]⟩] := by decide +kernel
  refine ⟨hnotes, ?_⟩
  apply (expansions_byChain strictFirst context .topology top ⟨"a", none⟩).2
  rw [hnotes]
  exact List.mem_singleton_self _

end Pinning

end Inventory
