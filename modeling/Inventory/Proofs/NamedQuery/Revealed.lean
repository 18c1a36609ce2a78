import Inventory.Proofs.NamedQuery.Results

/-!
# NamedQuery — what nodes reveal

An element of a query may list the properties that its instances show instead of
all they have. What an instance has of them stands for its own properties, and
when it has none of them nothing stands for these: it shows them all.
-/

namespace Inventory

open ResultTree

/-! ## Seen properties -/

theorem Table.not_mem_keys_empty {α : Type} {k : String} : k ∉ (∅ : Table α).keys :=
  List.not_mem_nil

theorem Table.isEmpty_iff {α : Type} {t : Table α} : t.isEmpty = true ↔ ∀ k, k ∉ t.keys := by
  rw [isEmpty, List.isEmpty_iff, keys, ← List.map_eq_nil_iff (f := Prod.fst),
    List.eq_nil_iff_forall_not_mem]

namespace ResultNode

/-- The properties that stand for those of the vertex. -/
def base (n : ResultNode) : Properties :=
  if n.overrides.isEmpty then n.vertex.properties else n.overrides

/-- The limit of the node lets a property of this name be seen. -/
def lets (n : ResultNode) (c : Catalog) (k : String) : Bool :=
  match n.propertyLimit with
  | some .nothing => false
  | some .nameAndKeys => (c.keyProperties n.vertex.nodeType).contains k || k.endsWith "-name"
  | _ => true

/-- What is seen is what the limit lets be seen and, under any limit but that of
nothing at all, what is joined in. -/
theorem mem_keys_visible {n : ResultNode} {c : Catalog} {k : String} :
    k ∈ (n.visible c).keys ↔
      (k ∈ n.base.keys ∧ n.lets c k = true) ∨
        (n.propertyLimit ≠ some .nothing ∧ k ∈ n.extras.keys) := by
  have hall : k ∈ (n.base.putAll n.extras.entries).keys ↔ k ∈ n.base.keys ∨ k ∈ n.extras.keys :=
    Table.mem_keys_putAll
  unfold visible lets
  cases n.propertyLimit with
  | none => exact hall.trans (by simp)
  | some limit =>
      cases limit with
      | all => exact hall.trans (by simp)
      | nothing => simp [Table.not_mem_keys_empty]
      | nameAndKeys =>
          refine Table.mem_keys_putAll.trans ?_
          rw [Table.mem_keys_filter (p := fun k =>
            (c.keyProperties n.vertex.nodeType).contains k || k.endsWith "-name")]
          simp [base, Table.keys]

end ResultNode

/-! ## Listed properties -/

/-- The vertex has some of these properties. -/
def Vertex.HasAny (v : Vertex) (names : List String) : Prop :=
  ∃ k ∈ names, k ∈ v.properties.keys

theorem Vertex.mem_keys_picked {v : Vertex} {names : List String} {k : String} :
    k ∈ (v.picked names).map (·.1) ↔ k ∈ names ∧ k ∈ v.properties.keys := by
  simp [picked, property?, Table.mem_keys, Table.contains, Option.isSome_iff_exists]

/-- What a lookup joins in has the name of its type and of a property it collects. -/
theorem RelatedLookup.mem_keys_found {g : Graph} {l : RelatedLookup} {v : Vertex} {k : String}
    (h : k ∈ (l.found g v).map (·.1)) : ∃ name ∈ l.collect, k = l.targetType ++ "." ++ name := by
  unfold found at h
  split at h
  · cases h
  · split at h
    · cases h
    · split at h
      · cases h
      · next target _ _ =>
          rw [List.map_map, List.mem_map] at h
          obtain ⟨p, hp, rfl⟩ := h
          have hname := Vertex.mem_keys_picked.mp (List.mem_map_of_mem (f := Prod.fst) hp)
          exact ⟨p.1, hname.1, rfl⟩

namespace Directive

/-- The directive lists a property: of the vertex, or of one that is joined in. -/
def Lists (d : Directive) (k : String) : Prop :=
  k ∈ d.element.collect ∨ ∃ l ∈ d.lookups, ∃ name ∈ l.collect, k = l.targetType ++ "." ++ name

/-- Whoever sees the node sees nothing that the directive does not list. -/
def Conceals (d : Directive) (c : Catalog) (n : ResultNode) : Prop :=
  ∀ k ∈ (n.visible c).keys, d.Lists k

variable {g : Graph} {d : Directive} {v : Vertex} {trail k : String}

theorem mem_keys_overrides :
    k ∈ (d.decorate g { vertex := v, trail := trail }).overrides.keys ↔
      k ∈ d.element.collect ∧ k ∈ v.properties.keys := by
  rw [decorate, Table.mem_keys_putAll, Vertex.mem_keys_picked]
  apply or_iff_right
  exact Table.not_mem_keys_empty

theorem lists_of_extras (h : k ∈ (d.decorate g { vertex := v, trail := trail }).extras.keys) :
    d.Lists k := by
  rw [decorate, Table.mem_keys_putAll] at h
  rcases h with h | h
  · cases h
  · obtain ⟨e, he, rfl⟩ := List.mem_map.mp h
    obtain ⟨l, hl, he⟩ := List.mem_flatMap.mp he
    exact .inr ⟨l, hl, RelatedLookup.mem_keys_found (List.mem_map_of_mem he)⟩

/-- Without a listed property the vertex stands for itself. -/
theorem base_decorate_of_not_hasAny (h : ¬ v.HasAny d.element.collect) :
    (d.decorate g { vertex := v, trail := trail }).base = v.properties := by
  apply if_pos
  apply Table.isEmpty_iff.mpr
  intro k hk
  exact h ⟨k, mem_keys_overrides.mp hk⟩

/-- With a listed property nothing else of the vertex is left. -/
theorem mem_collect_of_hasAny (h : v.HasAny d.element.collect)
    (hk : k ∈ (d.decorate g { vertex := v, trail := trail }).base.keys) :
    k ∈ d.element.collect := by
  obtain ⟨k', hk'⟩ := h
  have hsome : (d.decorate g { vertex := v, trail := trail }).overrides.isEmpty ≠ true := by
    intro hempty
    exact Table.isEmpty_iff.mp hempty k' (mem_keys_overrides.mpr hk')
  rw [ResultNode.base, if_neg hsome] at hk
  exact (mem_keys_overrides.mp hk).1

/-- A directive conceals what it does not list just when the vertex has something
of its list, or nothing else to show. -/
theorem conceals_decorate_iff (c : Catalog) :
    d.Conceals c (d.decorate g { vertex := v, trail := trail }) ↔
      v.HasAny d.element.collect ∨
        ∀ k ∈ v.properties.keys,
          (d.decorate g { vertex := v, trail := trail }).lets c k = true → d.Lists k := by
  unfold Conceals
  by_cases hany : v.HasAny d.element.collect
  · apply iff_of_true _ (.inl hany)
    intro k hk
    rcases ResultNode.mem_keys_visible.mp hk with ⟨hown, -⟩ | ⟨-, hjoined⟩
    · exact .inl (mem_collect_of_hasAny hany hown)
    · exact lists_of_extras hjoined
  · rw [or_iff_right hany]
    have hbase : (d.decorate g { vertex := v, trail := trail }).base = v.properties :=
      base_decorate_of_not_hasAny hany
    constructor
    · intro hall k hk hlets
      exact hall k (ResultNode.mem_keys_visible.mpr (.inl ⟨hbase ▸ hk, hlets⟩))
    · intro hall k hk
      rcases ResultNode.mem_keys_visible.mp hk with ⟨hown, hlets⟩ | ⟨-, hjoined⟩
      · exact hall k (hbase ▸ hown) hlets
      · exact lists_of_extras hjoined

end Directive

/-! ## Evaluations -/

/-- Every node of the results is as the directive of its trail says. -/
theorem QueryTopology.directed_of_evaluate {q : QueryTopology} (hcovers : q.Covers) {g : Graph}
    (wf : g.WellFormed) {ctx : Context} {r : QueryRequest} {results : List ResultTree}
    (h : q.evaluate g ctx r = .ok results) {n : ResultNode} (hn : n ∈ preorderAll results) :
    q.Directed g n := by
  obtain ⟨founds, rfl, hall⟩ := evaluate_eq_ok h
  obtain ⟨t, ht, hn⟩ := mem_preorderAll.mp hn
  obtain ⟨group, hgroup, ht⟩ := List.mem_flatten.mp ht
  obtain ⟨found, hfound, rfl⟩ := List.mem_map.mp hgroup
  obtain ⟨start, hstart, c, c', hrun⟩ := Outcome.exists_of_forall₂ hall.flip hfound
  have hcollected := (r.results_sublist found).subset (mem_preorderAll.mpr ⟨t, ht, hn⟩)
  cases found with
  | none => cases hcollected
  | some t =>
      have hn : n ∈ t.preorder := by simpa [preorderAll] using (List.mem_filter.mp hcollected).1
      exact (directed_of_collected wf hcovers (starts_of_mem wf hstart).stored hrun hn).1

/-- **What a list of properties conceals.** A node of a result shows nothing but
what its directive lists, for the vertex or for the vertices joined in, exactly
when the vertex has at least one of the properties listed for it, or when the
limit of the node lets none of its other properties be seen. -/
theorem evaluate_conceals_iff {g g₀ : Graph} (hg : g.Reachable) (hg₀ : g₀.Reachable)
    {ctx ctx₀ : Context} {query : NamedQuery} {q : QueryTopology}
    (hq : QueryTopology.ofQuery g₀ ctx₀ query = .ok q) {r : QueryRequest}
    {results : List ResultTree} (h : q.evaluate g ctx r = .ok results) {n : ResultNode}
    (hn : n ∈ preorderAll results) {d : Directive} (hd : q.directives.get? n.trail = some d)
    (c : Catalog) :
    d.Conceals c n ↔ n.vertex.HasAny d.element.collect ∨
      ∀ k ∈ n.vertex.properties.keys, n.lets c k = true → d.Lists k := by
  have hdirected := QueryTopology.directed_of_evaluate
    (QueryTopology.covers_ofQuery hg₀ hq) hg.wellFormed h hn
  obtain ⟨d', hd', -, hnode⟩ := hdirected
  cases hd.symm.trans hd'
  rw [hnode]
  exact Directive.conceals_decorate_iff c

/-! ### A host without a name -/

namespace Nameless

open Definition Pinning Inventory.Ring

def listingVertex : Vertex :=
  ⟨"ask-host", queryElementType, Table.ofList [("property-collect-list", .set ["name"])]⟩

def named : Vertex :=
  ⟨"named", "host", Table.ofList [("name", .text "web"), ("secret", .text "x")]⟩

def nameless : Vertex := ⟨"nameless", "host", Table.ofList [("secret", .text "x")]⟩

/-- A query asks for the names of hosts. Both hosts have a secret, one has a name. -/
def vertices : List Vertex :=
  [modelVertex "host-model" "widget" "host", askVertex, listingVertex, named, nameless]

def edges : List Edge :=
  [⟨"1", "ask", "ask-host", startsWith, ∅⟩, ⟨"2", "ask-host", "host-model", isA, ∅⟩]

def graph : Graph := (Graph.ofParts vertices edges).toOption.getD .empty

/-- Of a host only the name is asked for. -/
def directive : Directive := ⟨⟨"ask-host", false, ["name"], none⟩, [], []⟩

def compiled : QueryTopology where
  topology := ⟨⟨"host", none⟩, ∅⟩
  directives := Table.ofList [("host", directive)]

def request : QueryRequest := { query := "ask" }

/-- The node of a host, with what stands for its properties. -/
def shown (v : Vertex) (overrides : Properties) : ResultNode :=
  ⟨v, "host", false, false, none, overrides, ∅⟩

/-- Nothing stands for the properties of the host without a name. -/
def results : List ResultTree :=
  [.node (shown named (Table.ofList [("name", .text "web")])) [], .node (shown nameless ∅) []]

theorem reachable_graph : graph.Reachable :=
  Graph.reachable_ofParts (show Graph.ofParts vertices edges = .ok graph from rfl)

theorem ofQuery_ask : QueryTopology.ofQuery graph {} query = .ok compiled := by rfl

theorem evaluate_ask : compiled.evaluate graph {} request = .ok results := by rfl

/-- The host that has a name shows nothing else. -/
theorem evaluate_conceals_named :
    graph.Reachable ∧ QueryTopology.ofQuery graph {} query = .ok compiled ∧
      compiled.evaluate graph {} request = .ok results ∧
      shown named (Table.ofList [("name", .text "web")]) ∈ preorderAll results ∧
      compiled.directives.get? "host" = some directive ∧
      directive.Conceals {} (shown named (Table.ofList [("name", .text "web")])) := by
  have hn : shown named (Table.ofList [("name", .text "web")]) ∈ preorderAll results :=
    List.mem_cons_self
  have hd : compiled.directives.get? "host" = some directive := by rfl
  have hname : named.HasAny ["name"] := ⟨"name", by decide, by decide⟩
  exact ⟨reachable_graph, ofQuery_ask, evaluate_ask, hn, hd,
    (evaluate_conceals_iff reachable_graph reachable_graph ofQuery_ask evaluate_ask hn hd {}).mpr
      (.inl hname)⟩

/-- The host that has no name shows its secret, which the query does not list. -/
theorem not_conceals_nameless :
    graph.Reachable ∧ QueryTopology.ofQuery graph {} query = .ok compiled ∧
      compiled.evaluate graph {} request = .ok results ∧
      shown nameless ∅ ∈ preorderAll results ∧
      compiled.directives.get? "host" = some directive ∧ directive.element.collect = ["name"] ∧
      directive.lookups = [] ∧ ¬ directive.Conceals {} (shown nameless ∅) := by
  refine ⟨reachable_graph, ofQuery_ask, evaluate_ask, ?_, rfl, rfl, rfl, ?_⟩
  · exact List.mem_cons_of_mem _ List.mem_cons_self
  · intro hconceals
    rcases hconceals "secret" (by decide) with hlisted | ⟨l, hl, -⟩
    · revert hlisted
      decide
    · cases hl

end Nameless

end Inventory
