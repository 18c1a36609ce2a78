import Inventory.Proofs.ResultTree

/-!
# ResultTree — collapsed trees

Nodes that are not for output give way to what stands below them. The others
keep their order, and each of them comes to stand below the nearest node for
output that it stood below before. A node is known by its place, the number of
nodes before it in preorder, so that equal nodes are told apart.
-/

namespace Inventory.ResultTree

/-! ## Standings -/

/-- A node with the places of all nodes that it stands below, the nearest first. -/
structure Standing where
  node : ResultNode
  above : List Nat

/-- The place of the node that it stands right below; a root has none. -/
def Standing.parent? (s : Standing) : Option Nat := s.above.head?

mutual

/-- The standings of all nodes in preorder, when the top has place `k` and stands
below the places `above`. -/
def standings (k : Nat) (above : List Nat) : ResultTree → List Standing
  | .node n cs => ⟨n, above⟩ :: standingsAll (k + 1) (k :: above) cs

/-- The standings in one tree after another. -/
def standingsAll (k : Nat) (above : List Nat) : List ResultTree → List Standing
  | [] => []
  | t :: ts => t.standings k above ++ standingsAll (k + t.size) above ts

end

/-- How the node at a place of these trees stands. -/
def standing? (ts : List ResultTree) (i : Nat) : Option Standing := (standingsAll 0 [] ts)[i]?

mutual

theorem map_node_standings (k : Nat) (above : List Nat) :
    ∀ t : ResultTree, (t.standings k above).map (·.node) = t.preorder
  | .node n cs => by
      rw [standings, preorder, List.map_cons, map_node_standingsAll (k + 1) (k :: above) cs]

theorem map_node_standingsAll (k : Nat) (above : List Nat) :
    ∀ ts : List ResultTree, (standingsAll k above ts).map (·.node) = preorderAll ts
  | [] => rfl
  | t :: ts => by
      rw [standingsAll, preorderAll, List.map_append, map_node_standings k above t,
        map_node_standingsAll (k + t.size) above ts]

end

theorem standingsAll_append (k : Nat) (above : List Nat) (ts us : List ResultTree) :
    standingsAll k above (ts ++ us) =
      standingsAll k above ts ++ standingsAll (k + sizeAll ts) above us := by
  induction ts generalizing k with
  | nil => rfl
  | cons t ts ih =>
      rw [List.cons_append, standingsAll, standingsAll, ih, sizeAll_cons, List.append_assoc,
        Nat.add_assoc]

/-! ## Places of the nodes for output -/

/-- The node at a place is for output. -/
def shownAt (ns : List ResultNode) (i : Nat) : Bool := (ns[i]?).any (!·.doNotOutput)

/-- The place that a node has when only nodes for output count. -/
def newPlace (ns : List ResultNode) (i : Nat) : Nat := (ns.take i).countP (!·.doNotOutput)

/-- From place `k` on, `shown` says which nodes are for output and `place` counts them. -/
def Numbered (shown : Nat → Bool) (place : Nat → Nat) : Nat → List ResultNode → Prop
  | _, [] => True
  | k, n :: ns => shown k = !n.doNotOutput ∧ place (k + 1) = place k + (!n.doNotOutput).toNat ∧
      Numbered shown place (k + 1) ns

section

variable {shown : Nat → Bool} {place : Nat → Nat} {k : Nat} {ns ms : List ResultNode}

theorem numbered_append :
    Numbered shown place k (ns ++ ms) ↔
      Numbered shown place k ns ∧ Numbered shown place (k + ns.length) ms := by
  induction ns generalizing k with
  | nil => simp [Numbered]
  | cons n ns ih =>
      have hplace : k + 1 + ns.length = k + (n :: ns).length := by
        simp only [List.length_cons]
        omega
      rw [List.cons_append, Numbered, Numbered, ih, hplace]
      simp only [and_assoc]

/-- Behind some nodes, the places have moved on by those for output. -/
theorem Numbered.place_add (h : Numbered shown place k ns) :
    place (k + ns.length) = place k + (ns.filter (!·.doNotOutput)).length := by
  induction ns generalizing k with
  | nil => rfl
  | cons n ns ih =>
      obtain ⟨-, hnext, hrest⟩ := h
      have hlater := ih hrest
      rw [List.length_cons, Nat.add_comm ns.length 1, ← Nat.add_assoc, hlater, hnext]
      by_cases hn : n.doNotOutput = true
      · simp [hn]
      · simp [hn]
        omega

/-- The nodes themselves say what their places are. -/
theorem numbered_self (ns : List ResultNode) :
    Numbered (shownAt ns) (newPlace ns) 0 ns := by
  have hlater : ∀ before rest, before ++ rest = ns →
      Numbered (shownAt ns) (newPlace ns) before.length rest := by
    intro before rest
    induction rest generalizing before with
    | nil => intro _; trivial
    | cons n rest ih =>
        intro hns
        have hn : ns[before.length]? = some n := by simp [← hns]
        have htake : ns.take (before.length + 1) = ns.take before.length ++ [n] := by
          rw [List.take_add_one, hn, Option.toList_some]
        refine ⟨by simp [shownAt, hn], ?_, ?_⟩
        · rw [newPlace, newPlace, htake, List.countP_append, List.countP_singleton]
          cases n.doNotOutput <;> rfl
        · have hrest := ih (before ++ [n]) (by simp [← hns])
          rwa [List.length_append, List.length_singleton] at hrest
  exact hlater [] ns rfl

end

/-! ## Standings in collapsed trees -/

section

variable {shown : Nat → Bool} {place : Nat → Nat}

/-- How a node stands when only nodes for output count. -/
def Standing.lifted (shown : Nat → Bool) (place : Nat → Nat) (s : Standing) : Standing :=
  ⟨s.node, (s.above.filter shown).map place⟩

mutual

/-- In a collapsed tree the nodes for output stand below the nodes for output
that they stood below. -/
theorem standings_collapse {k : Nat} (above : List Nat) :
    ∀ t : ResultTree, Numbered shown place k t.preorder →
      standingsAll (place k) ((above.filter shown).map place) t.collapse =
        ((t.standings k above).filter (!·.node.doNotOutput)).map (Standing.lifted shown place)
  | .node n cs, h => by
      obtain ⟨hshown, hnext, hbelow⟩ := h
      have hchildren := standings_collapseAll (k :: above) cs hbelow
      rw [standings, collapse]
      by_cases hn : n.doNotOutput = true
      -- the children take the place of the node, below what was above it
      · rw [hn] at hshown hnext
        rw [if_pos hn, List.filter_cons_of_neg (by simp [hn]), ← hchildren, hnext,
          List.filter_cons_of_neg (by simp [hshown])]
        rfl
      · have hfalse : n.doNotOutput = false := Bool.eq_false_iff.mpr hn
        rw [hfalse] at hshown hnext
        rw [if_neg hn, List.filter_cons_of_pos (by simp [hfalse]), List.map_cons, ← hchildren,
          hnext, List.filter_cons_of_pos (by simp [hshown])]
        simp [standingsAll, standings, Standing.lifted]

theorem standings_collapseAll {k : Nat} (above : List Nat) :
    ∀ ts : List ResultTree, Numbered shown place k (preorderAll ts) →
      standingsAll (place k) ((above.filter shown).map place) (collapseAll ts) =
        ((standingsAll k above ts).filter (!·.node.doNotOutput)).map
          (Standing.lifted shown place)
  | [], _ => rfl
  | t :: ts, h => by
      obtain ⟨ht, hts⟩ := numbered_append.mp h
      have hplace : place k + sizeAll t.collapse = place (k + t.size) := by
        rw [size, ht.place_add, sizeAll, preorderAll_collapse]
      rw [collapseAll, standingsAll_append, standings_collapse above t ht, hplace,
        show k + t.size = k + t.preorder.length from rfl, standings_collapseAll above ts hts,
        standingsAll, List.filter_append, List.map_append]
      rfl

end

end

/-- An item that passes a test stands in the filtered list behind those before it
that pass. -/
theorem getElem?_filter_countP {α : Type} {p : α → Bool} {l : List α} {i : Nat} {x : α}
    (hx : l[i]? = some x) (hp : p x = true) : (l.filter p)[(l.take i).countP p]? = some x := by
  induction l generalizing i with
  | nil => cases hx
  | cons y l ih =>
      cases i with
      | zero =>
          rw [List.getElem?_cons_zero, Option.some.injEq] at hx
          subst hx
          simp [hp]
      | succ i =>
          rw [List.getElem?_cons_succ] at hx
          have hrest := ih hx
          by_cases hy : p y = true
          · rw [List.take_succ_cons, List.countP_cons_of_pos hy, List.filter_cons_of_pos hy,
              List.getElem?_cons_succ]
            exact hrest
          · rw [List.take_succ_cons, List.countP_cons_of_neg hy, List.filter_cons_of_neg hy]
            exact hrest

/-- A node for output stands at its new place, below the new places of the nodes
for output that it stood below. -/
theorem standing?_collapseAll {ts : List ResultTree} {i : Nat} {s : Standing}
    (hs : standing? ts i = some s) (hshown : s.node.doNotOutput = false) :
    standing? (collapseAll ts) (newPlace (preorderAll ts) i) =
      some (s.lifted (shownAt (preorderAll ts)) (newPlace (preorderAll ts))) := by
  have hall : standingsAll 0 [] (collapseAll ts) =
      ((standingsAll 0 [] ts).filter (!·.node.doNotOutput)).map
        (Standing.lifted (shownAt (preorderAll ts)) (newPlace (preorderAll ts))) :=
    standings_collapseAll [] ts (numbered_self (preorderAll ts))
  have hplace : newPlace (preorderAll ts) i =
      ((standingsAll 0 [] ts).take i).countP (!·.node.doNotOutput) := by
    rw [newPlace, ← map_node_standingsAll 0 [] ts, ← List.map_take, List.countP_map]
    rfl
  have hfound := getElem?_filter_countP (p := fun s => !s.node.doNotOutput) hs (by simp [hshown])
  rw [standing?, hall, hplace, List.getElem?_map, hfound]
  rfl

/-! ## Collapsing again -/

mutual

/-- A tree of nodes for output stays as it is. -/
theorem collapse_eq_self :
    ∀ t : ResultTree, (∀ n ∈ t.preorder, n.doNotOutput = false) → t.collapse = [t]
  | .node n cs, h => by
      rw [preorder, List.forall_mem_cons] at h
      rw [collapse, h.1, collapseAll_eq_self cs h.2]
      rfl

theorem collapseAll_eq_self :
    ∀ ts : List ResultTree, (∀ n ∈ preorderAll ts, n.doNotOutput = false) → collapseAll ts = ts
  | [], _ => rfl
  | t :: ts, h => by
      rw [preorderAll, List.forall_mem_append] at h
      rw [collapseAll, collapse_eq_self t h.1, collapseAll_eq_self ts h.2]
      rfl

end

/-- **Collapsing takes out exactly the nodes that are not for output.** None of
them is left at any level; the others are left in their order. Each of these has
the nearest node for output above it as its parent, or is a root when there is
none. Collapsing again changes nothing. -/
theorem collapseAll_lifts (ts : List ResultTree) :
    (∀ n ∈ preorderAll (collapseAll ts), n.doNotOutput = false) ∧
      preorderAll (collapseAll ts) = (preorderAll ts).filter (!·.doNotOutput) ∧
      (∀ i s, standing? ts i = some s → s.node.doNotOutput = false →
        ∃ s', standing? (collapseAll ts) (newPlace (preorderAll ts) i) = some s' ∧
          s'.node = s.node ∧
          s'.parent? = (s.above.find? (shownAt (preorderAll ts))).map
            (newPlace (preorderAll ts))) ∧
      collapseAll (collapseAll ts) = collapseAll ts := by
  have hshown : ∀ n ∈ preorderAll (collapseAll ts), n.doNotOutput = false := by
    intro n hn
    rw [preorderAll_collapseAll, List.mem_filter] at hn
    simpa using hn.2
  refine ⟨hshown, preorderAll_collapseAll ts, ?_, collapseAll_eq_self _ hshown⟩
  intro i s hs hnode
  refine ⟨_, standing?_collapseAll hs hnode, rfl, ?_⟩
  rw [Standing.parent?, Standing.lifted, List.head?_map, List.head?_filter]

/-! ### Hidden levels -/

namespace Levels

def named (id : String) (hidden : Bool) : ResultNode :=
  { vertex := ⟨id, "node", ∅⟩, trail := "node", doNotOutput := hidden }

/-- Below a hidden root stand `a` and `m`; between `m` and `x` are two hidden levels. -/
def veiled : List ResultTree :=
  [.node (named "g" true) [.node (named "a" false) [],
    .node (named "m" false) [.node (named "v" true) [.node (named "h" true)
      [.node (named "x" false) []]]]]]

/-- The last node comes to stand right below the root that `m` has become. -/
theorem collapseAll_lifts_veiled :
    standing? veiled 5 = some ⟨named "x" false, [4, 3, 2, 0]⟩ ∧
      ∃ s, standing? (collapseAll veiled) 2 = some s ∧ s.node = named "x" false ∧
        s.parent? = some 1 := by
  have hx : standing? veiled 5 = some ⟨named "x" false, [4, 3, 2, 0]⟩ := by rfl
  obtain ⟨s, hs, hnode, hparent⟩ := (collapseAll_lifts veiled).2.2.1 5 _ hx rfl
  exact ⟨hx, s, hs, hnode, hparent⟩

end Levels

end Inventory.ResultTree
