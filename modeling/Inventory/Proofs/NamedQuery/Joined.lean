import Inventory.Proofs.NamedQuery.Revealed

/-!
# NamedQuery — what lookups join in

A related lookup joins a node with the vertex of lowest id whose property equals
one of the node's, and copies what it collects from there. Equal here means that
the node's property is a text and that the target's agrees with this text: it is
that text, or a value that is shown so, or a set with that member. So a node whose
property is a number or a truth value is joined with nothing, and one whose
property is a text may be joined with a target whose property is a number.
-/

namespace Inventory

open ResultTree

/-! ## Equal properties -/

namespace Property

/-- The first property is a text, and the second agrees with it. -/
def TextAgrees (p q : Property) : Prop := ∃ s, p.text? = some s ∧ q.agrees s = true

/-- The properties are equal truth values, numbers of one kind, or texts. -/
inductive SameScalar : Property → Property → Prop
  | bool (b : Bool) : SameScalar (.bool b) (.bool b)
  | int (n : Int64) : SameScalar (.int n) (.int n)
  | real {x y : Float} (h : (x == y) = true) : SameScalar (.real x) (.real y)
  | text (s : String) : SameScalar (.text s) (.text s)

/-- From a text, equality is stricter than agreement. -/
theorem SameScalar.textAgrees {p q : Property} {s : String} (h : SameScalar p q)
    (hp : p.text? = some s) : TextAgrees p q := by
  cases h with
  | bool b => cases hp
  | int n => cases hp
  | real h => cases hp
  | text t => exact ⟨t, rfl, by simp [agrees, shown]⟩

end Property

open Property

/-! ## Vertices by rising id -/

/-- The first of the vertices that pass a test has the lowest id of them. -/
theorem Graph.WellFormed.first_lowest {g : Graph} (wf : g.WellFormed) {p : Vertex → Bool}
    {t : Vertex} {rest : List Vertex} (h : g.vertices.values.filter p = t :: rest) :
    ∀ w ∈ g.vertices.values.filter p, t.id ≤ w.id := by
  have hrising := wf.vertices_rising.filter p
  rw [h, List.pairwise_cons] at hrising
  intro w hw
  rw [h] at hw
  rcases List.mem_cons.mp hw with rfl | hrest
  · exact String.le_refl _
  · exact String.not_lt.mp (String.lt_asymm (hrising.1 w hrest))

/-! ## One lookup -/

theorem Vertex.mem_picked {v : Vertex} {names : List String} {name : String} {p : Property} :
    (name, p) ∈ v.picked names ↔ name ∈ names ∧ v.property? name = some p := by
  simp [picked]

namespace RelatedLookup

/-- The lookup is for vertices like this one, and the target is a stored vertex
whose property is related to its property. -/
structure Finds (R : Property → Property → Prop) (g : Graph) (l : RelatedLookup) (v t : Vertex) :
    Prop where
  source : l.sourceType = v.nodeType
  stored : g.vertices.get? t.id = some t
  type : t.nodeType = l.targetType
  related : ∃ p q, v.property? l.sourceProperty = some p ∧
    t.property? l.targetProperty = some q ∧ R p q

/-- The target is the one of lowest id. -/
structure Chooses (R : Property → Property → Prop) (g : Graph) (l : RelatedLookup)
    (v t : Vertex) : Prop where
  finds : l.Finds R g v t
  lowest : ∀ w, l.Finds R g v w → t.id ≤ w.id

/-- The chosen target has a collected property that goes under this key. -/
def Gives (R : Property → Property → Prop) (g : Graph) (l : RelatedLookup) (v : Vertex)
    (k : String) (p : Property) : Prop :=
  ∃ t, l.Chooses R g v t ∧
    ∃ name ∈ l.collect, t.property? name = some p ∧ k = l.targetType ++ "." ++ name

/-- Agreement with a text and equality choose the same target, or none. -/
def ChoosesAlike (g : Graph) (l : RelatedLookup) (v : Vertex) : Prop :=
  ∀ t, l.Chooses TextAgrees g v t ↔ l.Chooses SameScalar g v t

variable {R : Property → Property → Prop} {g : Graph} {l : RelatedLookup} {v t t' : Vertex}
  {k : String} {p p' : Property}

theorem Chooses.unique (h : l.Chooses R g v t) (h' : l.Chooses R g v t') : t = t' := by
  have hid : t.id = t'.id := String.le_antisymm (h.lowest t' h'.finds) (h'.lowest t h.finds)
  have hstored := h.finds.stored
  rw [hid, h'.finds.stored] at hstored
  exact (Option.some.inj hstored).symm

/-- Where some target is found, one is chosen. -/
theorem exists_chooses (wf : g.WellFormed) (h : l.Finds R g v t) :
    ∃ t₀, l.Chooses R g v t₀ := by
  classical
  have hmem : ∀ {w}, w ∈ g.vertices.values.filter (fun w => decide (l.Finds R g v w)) ↔
      l.Finds R g v w := by
    intro w
    rw [List.mem_filter, decide_eq_true_iff, wf.mem_vertices]
    exact and_iff_right_of_imp (·.stored)
  obtain ⟨t₀, rest, hfound⟩ := List.exists_cons_of_ne_nil (List.ne_nil_of_mem (hmem.mpr h))
  exact ⟨t₀, hmem.mp (hfound ▸ List.mem_cons_self),
    fun w hw => wf.first_lowest hfound w (hmem.mpr hw)⟩

/-- A lookup gives one property under a key. -/
theorem Gives.unique (h : l.Gives R g v k p) (h' : l.Gives R g v k p') : p = p' := by
  obtain ⟨t, ht, name, -, hp, hk⟩ := h
  obtain ⟨t', ht', name', -, hp', hk'⟩ := h'
  obtain rfl := ht.unique ht'
  obtain rfl : name = name' := String.append_right_inj _ |>.mp (hk.symm.trans hk')
  exact Option.some.inj (hp.symm.trans hp')

/-! ## Choice by agreement -/

theorem text?_of_finds (h : l.Finds TextAgrees g v t) :
    ∃ s, v.text? l.sourceProperty = some s := by
  obtain ⟨p, q, hp, -, s, hs, -⟩ := h.related
  exact ⟨s, Option.bind_eq_some_iff.mpr ⟨p, hp, hs⟩⟩

/-- Agreement with a text is what a search among the vertices looks for. -/
theorem finds_textAgrees_iff (wf : g.WellFormed) {s : String} (hsource : l.sourceType = v.nodeType)
    (htext : v.text? l.sourceProperty = some s) :
    l.Finds TextAgrees g v t ↔ t ∈ g.find l.targetType [(l.targetProperty, s)] := by
  obtain ⟨p, hp, hs⟩ := Option.bind_eq_some_iff.mp htext
  have hmeets : t.meets [(l.targetProperty, s)] = true ↔
      ∃ q, t.property? l.targetProperty = some q ∧ q.agrees s = true := by
    simp only [Vertex.meets, List.all_cons, List.all_nil, Bool.and_true, Vertex.agrees]
    cases t.property? l.targetProperty <;> simp
  rw [Graph.find, List.mem_filter, wf.mem_vertices, Bool.and_eq_true, beq_iff_eq, hmeets]
  constructor
  · intro ⟨_, hstored, htype, p', q, hp', hq, s', hs', hagrees⟩
    cases hp.symm.trans hp'
    cases hs.symm.trans hs'
    exact ⟨hstored, htype, q, hq, hagrees⟩
  · intro ⟨hstored, htype, q, hq, hagrees⟩
    exact ⟨hsource, hstored, htype, p, q, hp, hq, s, hs, hagrees⟩

/-- What a lookup joins in is what it gives by agreement. -/
theorem mem_found (wf : g.WellFormed) : (k, p) ∈ l.found g v ↔ l.Gives TextAgrees g v k p := by
  unfold found
  split
  case isTrue hsource =>
    refine iff_of_false List.not_mem_nil fun ⟨t, ht, _⟩ => hsource ht.finds.source
  case isFalse hsource =>
  rw [not_not] at hsource
  split
  case h_1 htext =>
    refine iff_of_false List.not_mem_nil fun ⟨t, ht, _⟩ => ?_
    obtain ⟨s, hs⟩ := text?_of_finds ht.finds
    cases htext.symm.trans hs
  case h_2 s htext =>
  have hfinds : ∀ {w}, l.Finds TextAgrees g v w ↔ w ∈ g.find l.targetType [(l.targetProperty, s)] :=
    finds_textAgrees_iff wf hsource htext
  split
  case h_1 hnone =>
    refine iff_of_false List.not_mem_nil fun ⟨t, ht, _⟩ => ?_
    have hmem := hfinds.mp ht.finds
    rw [hnone] at hmem
    cases hmem
  case h_2 t rest hfound =>
    have hchosen : l.Chooses TextAgrees g v t :=
      ⟨hfinds.mpr (hfound ▸ List.mem_cons_self),
        fun w hw => wf.first_lowest hfound w (hfinds.mp hw)⟩
    constructor
    · intro h
      obtain ⟨⟨name, q⟩, hpicked, hentry⟩ := List.mem_map.mp h
      cases hentry
      obtain ⟨hname, hq⟩ := Vertex.mem_picked.mp hpicked
      exact ⟨t, hchosen, name, hname, hq, rfl⟩
    · rintro ⟨t', ht', name, hname, hp, rfl⟩
      cases hchosen.unique ht'
      exact List.mem_map.mpr ⟨(name, p), Vertex.mem_picked.mpr ⟨hname, hp⟩, rfl⟩

/-! ## Agreement and equality -/

/-- Agreement with a text and equality choose alike exactly when equality finds
targets for a text only, and agreement finds none below the first of these. -/
theorem choosesAlike_iff (wf : g.WellFormed) :
    l.ChoosesAlike g v ↔
      (∀ t, l.Finds SameScalar g v t → ∃ s, v.text? l.sourceProperty = some s) ∧
        ∀ w, l.Finds TextAgrees g v w → ∃ t, l.Finds SameScalar g v t ∧ t.id ≤ w.id := by
  constructor
  · intro halike
    refine ⟨fun t ht => ?_, fun w hw => ?_⟩
    · obtain ⟨t₀, ht₀⟩ := exists_chooses wf ht
      exact text?_of_finds ((halike t₀).mpr ht₀).finds
    · obtain ⟨t₀, ht₀⟩ := exists_chooses wf hw
      exact ⟨t₀, ((halike t₀).mp ht₀).finds, ht₀.lowest w hw⟩
  · intro ⟨htext, hbelow⟩ t
    have hagrees : ∀ {w}, l.Finds SameScalar g v w → l.Finds TextAgrees g v w := by
      intro w hw
      obtain ⟨s, hs⟩ := htext w hw
      obtain ⟨p, hp, hps⟩ := Option.bind_eq_some_iff.mp hs
      obtain ⟨p', q, hp', hq, hpq⟩ := hw.related
      cases hp.symm.trans hp'
      exact ⟨hw.source, hw.stored, hw.type, p, q, hp, hq, hpq.textAgrees hps⟩
    constructor
    · intro ht
      -- equality finds a target that is not above it, which agreement finds too
      obtain ⟨t', ht', hle⟩ := hbelow t ht.finds
      have hid : t.id = t'.id := String.le_antisymm (ht.lowest t' (hagrees ht')) hle
      have hstored := ht.finds.stored
      rw [hid, ht'.stored] at hstored
      cases hstored
      exact ⟨ht', fun w hw => ht.lowest w (hagrees hw)⟩
    · intro ht
      refine ⟨hagrees ht.finds, fun w hw => ?_⟩
      obtain ⟨t', ht', hle⟩ := hbelow w hw
      exact String.le_trans (ht.lowest t' ht') hle

theorem ChoosesAlike.gives_iff (h : l.ChoosesAlike g v) :
    l.Gives TextAgrees g v k p ↔ l.Gives SameScalar g v k p :=
  exists_congr fun t => and_congr_left fun _ => h t

end RelatedLookup

/-! ## Several lookups -/

/-- The last of the lookups that gives anything under the key gives this. -/
inductive LastGives (R : Property → Property → Prop) (g : Graph) (v : Vertex) (k : String)
    (p : Property) : List RelatedLookup → Prop
  | here {l : RelatedLookup} {ls : List RelatedLookup} (h : l.Gives R g v k p)
      (hlast : ∀ l' ∈ ls, ∀ p', ¬ l'.Gives R g v k p') : LastGives R g v k p (l :: ls)
  | later {l : RelatedLookup} {ls : List RelatedLookup} (h : LastGives R g v k p ls) :
      LastGives R g v k p (l :: ls)

/-- The properties are what the lookups give, later ones in the place of earlier ones. -/
def JoinedBy (R : Property → Property → Prop) (g : Graph) (ls : List RelatedLookup) (v : Vertex)
    (extras : Properties) : Prop :=
  ∀ k p, extras.get? k = some p ↔ LastGives R g v k p ls

section

variable {R R' : Property → Property → Prop} {g : Graph} {l : RelatedLookup}
  {ls : List RelatedLookup} {v : Vertex} {k : String} {p : Property}

theorem lastGives_cons :
    LastGives R g v k p (l :: ls) ↔
      LastGives R g v k p ls ∨ ((∀ l' ∈ ls, ∀ p', ¬ l'.Gives R g v k p') ∧ l.Gives R g v k p) := by
  constructor
  · intro h
    cases h with
    | here h hlast => exact .inr ⟨hlast, h⟩
    | later h => exact .inl h
  · rintro (h | ⟨hlast, h⟩)
    · exact .later h
    · exact .here h hlast

theorem lastGives_congr (h : ∀ l ∈ ls, ∀ k p, l.Gives R g v k p ↔ l.Gives R' g v k p) :
    LastGives R g v k p ls ↔ LastGives R' g v k p ls := by
  induction ls with
  | nil => exact ⟨nofun, nofun⟩
  | cons l ls ih =>
      obtain ⟨hl, hls⟩ := List.forall_mem_cons.mp h
      have hnone : (∀ l' ∈ ls, ∀ p', ¬ l'.Gives R g v k p') ↔
          ∀ l' ∈ ls, ∀ p', ¬ l'.Gives R' g v k p' :=
        forall₂_congr fun l' hl' => forall_congr' fun p' => not_congr (hls l' hl' k p')
      rw [lastGives_cons, lastGives_cons, ih hls, hnone, hl]

/-- Entries put into a table stand where they name a key, if they agree on it. -/
theorem Table.get?_putAll_eq_some {α : Type} {es : List (String × α)} {t : Table α} {x : α}
    (hone : ∀ x y, (k, x) ∈ es → (k, y) ∈ es → x = y) :
    (t.putAll es).get? k = some x ↔ (k, x) ∈ es ∨ ((∀ y, (k, y) ∉ es) ∧ t.get? k = some x) := by
  induction es generalizing t with
  | nil => simp [putAll]
  | cons e es ih =>
      obtain ⟨k', y⟩ := e
      have hrest : ∀ x y, (k, x) ∈ es → (k, y) ∈ es → x = y := fun x y hx hy =>
        hone x y (List.mem_cons_of_mem _ hx) (List.mem_cons_of_mem _ hy)
      show ((t.put k' y).putAll es).get? k = some x ↔ _
      rw [ih hrest, get?_put]
      by_cases hk : k = k'
      · subst hk
        rw [if_pos rfl]
        constructor
        · rintro (hx | ⟨-, hy⟩)
          · exact .inl (List.mem_cons_of_mem _ hx)
          · cases hy
            exact .inl List.mem_cons_self
        · rintro (hx | ⟨hnone, -⟩)
          · by_cases hsome : ∃ z, (k, z) ∈ es
            · obtain ⟨z, hz⟩ := hsome
              cases hone x z hx (List.mem_cons_of_mem _ hz)
              exact .inl hz
            · cases hone x y hx List.mem_cons_self
              exact .inr ⟨fun z hz => hsome ⟨z, hz⟩, rfl⟩
          · exact absurd List.mem_cons_self (hnone y)
      · simp [hk]

/-- What the lookups of a node are put onto gets what they give. -/
theorem get?_putAll_found (wf : g.WellFormed) {t : Properties} :
    (t.putAll (ls.flatMap (·.found g v))).get? k = some p ↔
      LastGives TextAgrees g v k p ls ∨
        ((∀ l ∈ ls, ∀ p', ¬ l.Gives TextAgrees g v k p') ∧ t.get? k = some p) := by
  induction ls generalizing t with
  | nil =>
      show t.get? k = some p ↔ _
      refine ⟨fun h => .inr ⟨nofun, h⟩, ?_⟩
      rintro (h | ⟨-, h⟩)
      · cases h
      · exact h
  | cons l ls ih =>
      have hone : ∀ p p', (k, p) ∈ l.found g v → (k, p') ∈ l.found g v → p = p' :=
        fun p p' hp hp' =>
          ((RelatedLookup.mem_found wf).mp hp).unique ((RelatedLookup.mem_found wf).mp hp')
      rw [List.flatMap_cons, Table.putAll, List.foldl_append, ← Table.putAll, ← Table.putAll, ih,
        Table.get?_putAll_eq_some hone, lastGives_cons, List.forall_mem_cons]
      simp only [RelatedLookup.mem_found wf]
      tauto

end

/-! ## Nodes -/

namespace Directive

variable {g : Graph} {d : Directive} {v : Vertex}

/-- What is joined in by agreement with a text is what is joined in by equality,
where the two choose alike. -/
theorem joinedBy_sameScalar (h : ∀ l ∈ d.lookups, l.ChoosesAlike g v) {extras : Properties}
    (hextras : JoinedBy TextAgrees g d.lookups v extras) :
    JoinedBy SameScalar g d.lookups v extras := by
  intro k p
  rw [hextras, lastGives_congr fun l hl k p => (h l hl).gives_iff]

/-- A directive leaves on a new node what its lookups give by agreement. -/
theorem joinedBy_decorate (wf : g.WellFormed) {n : ResultNode} (hn : n.extras = ∅) :
    JoinedBy TextAgrees g d.lookups n.vertex (d.decorate g n).extras := by
  intro k p
  rw [decorate, hn, get?_putAll_found wf]
  apply or_iff_left
  rintro ⟨-, h⟩
  cases h

end Directive

/-- **What related lookups join in.** Under a directive, the hook leaves on each
new node, and each evaluation shows on each node of its results, just what the
lookups in their order give, a later one in the place of an earlier one; each
gives the collected properties of the target of lowest id that it finds, and
finds by agreement with a text. This is what equal properties would give when
the lookups choose alike, that is, when a node whose property equals a target's
has a text there and no target below the first equal one agrees with this text. -/
theorem lookups_join {g : Graph} (hg : g.Reachable) :
    (∀ (q : QueryTopology) (n : ResultNode) (d : Directive), n.extras = ∅ →
      q.directives.get? n.trail = some d →
      ∃ visit n', q.hook g n () = (.ok (visit, n'), ()) ∧ n'.vertex = n.vertex ∧
        JoinedBy TextAgrees g d.lookups n.vertex n'.extras ∧
        ((∀ l ∈ d.lookups, l.ChoosesAlike g n.vertex) →
          JoinedBy SameScalar g d.lookups n.vertex n'.extras)) ∧
    (∀ {g₀ : Graph} {ctx ctx₀ : Context} {query : NamedQuery} {q : QueryTopology}
      {r : QueryRequest} {results : List ResultTree}, g₀.Reachable →
      QueryTopology.ofQuery g₀ ctx₀ query = .ok q → q.evaluate g ctx r = .ok results →
      ∀ n ∈ preorderAll results, ∃ d, q.directives.get? n.trail = some d ∧
        JoinedBy TextAgrees g d.lookups n.vertex n.extras ∧
        ((∀ l ∈ d.lookups, l.ChoosesAlike g n.vertex) →
          JoinedBy SameScalar g d.lookups n.vertex n.extras)) ∧
    ∀ (l : RelatedLookup) (v : Vertex), l.ChoosesAlike g v ↔
      (∀ t, l.Finds SameScalar g v t → ∃ s, v.text? l.sourceProperty = some s) ∧
        ∀ w, l.Finds TextAgrees g v w → ∃ t, l.Finds SameScalar g v t ∧ t.id ≤ w.id := by
  refine ⟨fun q n d hn hd => ?_, fun {g₀ _ _ _ q _ _} hg₀ hq heval n hn => ?_,
    fun l v => RelatedLookup.choosesAlike_iff hg.wellFormed⟩
  · have hjoined := Directive.joinedBy_decorate (d := d) hg.wellFormed hn
    refine ⟨if d.admits n.vertex then .expand else .drop, d.decorate g n, ?_, rfl, hjoined,
      fun halike => Directive.joinedBy_sameScalar halike hjoined⟩
    simp only [QueryTopology.hook, hd]
  · obtain ⟨d, hd, -, hnode⟩ := QueryTopology.directed_of_evaluate
      (QueryTopology.covers_ofQuery hg₀ hq) hg.wellFormed heval hn
    have hjoined : JoinedBy TextAgrees g d.lookups n.vertex n.extras := by
      rw [hnode]
      exact Directive.joinedBy_decorate hg.wellFormed rfl
    exact ⟨d, hd, hjoined, fun halike => Directive.joinedBy_sameScalar halike hjoined⟩

/-! ### Hosts and sites with codes -/

namespace Coded

open Definition Pinning Inventory.Ring

def lookupVertex : Vertex :=
  ⟨"join", relatedLookupType, Table.ofList [("source-node-type", .text "host"),
    ("source-node-property", .text "code"), ("target-node-type", .text "site"),
    ("target-node-property", .text "code"), ("property-collect-list", .set ["name"])]⟩

def host (id : String) (code : Property) : Vertex := ⟨id, "host", Table.ofList [("code", code)]⟩

def site (id : String) (code : Property) (name : String) : Vertex :=
  ⟨id, "site", Table.ofList [("code", code), ("name", .text name)]⟩

def counted : Vertex := host "counted" (.int 7)

def lettered : Vertex := host "lettered" (.text "x")

def written : Vertex := host "written" (.text "7")

def countedSite : Vertex := site "site-1" (.int 7) "one"

def writtenSite : Vertex := site "site-2" (.text "7") "two"

def letteredSite : Vertex := site "site-3" (.text "x") "three"

/-- A query asks for hosts and joins in the name of the site that has their code.
A host and a site have the number 7 for a code, another two the text 7, and
another two a letter. -/
def vertices : List Vertex :=
  [modelVertex "host-model" "widget" "host", askVertex, queryVertex "ask-host", lookupVertex,
    counted, lettered, written, countedSite, writtenSite, letteredSite]

def edges : List Edge :=
  [⟨"1", "ask", "ask-host", startsWith, ∅⟩, ⟨"2", "ask-host", "host-model", isA, ∅⟩,
    ⟨"3", "ask-host", "join", uses, ∅⟩]

def graph : Graph := (Graph.ofParts vertices edges).toOption.getD .empty

/-- Hosts are joined with the sites of their code. -/
def lookup : RelatedLookup := ⟨"host", "code", "site", "code", ["name"]⟩

/-- Every host is looked up. -/
def directive : Directive := ⟨⟨"ask-host", false, [], none⟩, [], [lookup]⟩

def compiled : QueryTopology where
  topology := ⟨⟨"host", none⟩, ∅⟩
  directives := Table.ofList [("host", directive)]

def request : QueryRequest := { query := "ask" }

/-- The node of a host, with what is joined in. -/
def shown (v : Vertex) (extras : Properties) : ResultNode :=
  ⟨v, "host", false, false, none, ∅, extras⟩

def siteName (name : String) : Properties := Table.ofList [("site.name", .text name)]

/-- The host whose code is a number is joined with no site. -/
def results : List ResultTree :=
  [.node (shown counted ∅) [], .node (shown lettered (siteName "three")) [],
    .node (shown written (siteName "one")) []]

theorem reachable_graph : graph.Reachable :=
  Graph.reachable_ofParts (show Graph.ofParts vertices edges = .ok graph from rfl)

theorem ofQuery_ask : QueryTopology.ofQuery graph {} query = .ok compiled := by rfl

theorem evaluate_ask : compiled.evaluate graph {} request = .ok results := by rfl

/-- The host whose code is a letter is joined with the site of that letter. -/
theorem lookups_join_lettered :
    graph.Reachable ∧ QueryTopology.ofQuery graph {} query = .ok compiled ∧
      compiled.evaluate graph {} request = .ok results ∧
      shown lettered (siteName "three") ∈ preorderAll results ∧
      JoinedBy SameScalar graph directive.lookups lettered (siteName "three") := by
  have hn : shown lettered (siteName "three") ∈ preorderAll results :=
    List.mem_cons_of_mem _ List.mem_cons_self
  obtain ⟨-, hevaluated, halike⟩ := lookups_join reachable_graph
  obtain ⟨d, hd, -, hjoined⟩ := hevaluated reachable_graph ofQuery_ask evaluate_ask _ hn
  cases (show compiled.directives.get? "host" = some directive by rfl).symm.trans hd
  have hlettered : lookup.ChoosesAlike graph lettered := by
    apply (halike lookup lettered).mpr
    refine ⟨fun _ _ => ⟨"x", by rfl⟩, fun w hw => ⟨letteredSite, ?_, ?_⟩⟩
    · exact ⟨rfl, rfl, rfl, .text "x", .text "x", rfl, rfl, .text "x"⟩
    · have hfound : graph.find "site" [("code", "x")] = [letteredSite] := by rfl
      have hw : w ∈ graph.find "site" [("code", "x")] :=
        (RelatedLookup.finds_textAgrees_iff reachable_graph.wellFormed rfl (by rfl)).mp hw
      rw [hfound, List.mem_singleton] at hw
      subst hw
      exact String.le_refl _
  exact ⟨reachable_graph, ofQuery_ask, evaluate_ask, hn, hjoined (by simpa [directive])⟩

/-- A target that a lookup for sites finds is one of the three. -/
theorem mem_sites {R : Property → Property → Prop} {v w : Vertex}
    (h : lookup.Finds R graph v w) : w ∈ [countedSite, writtenSite, letteredSite] := by
  have hsites : graph.find "site" [] = [countedSite, writtenSite, letteredSite] := by rfl
  rw [← hsites, Graph.find, List.mem_filter, reachable_graph.wellFormed.mem_vertices, h.type]
  exact ⟨h.stored, rfl⟩

theorem lastGives_name {v t : Vertex} {name : String} (h : lookup.Chooses SameScalar graph v t)
    (hname : t.property? "name" = some (.text name)) :
    LastGives SameScalar graph v "site.name" (.text name) directive.lookups :=
  .here ⟨t, h, "name", List.mem_singleton_self _, hname, rfl⟩ nofun

/-- The host whose code is the number 7 is joined with nothing, though there is a
site with that number, and the one whose code is the text 7 is joined with this
site, though there is one with that text. -/
theorem not_joinedBy_sameScalar :
    graph.Reachable ∧ QueryTopology.ofQuery graph {} query = .ok compiled ∧
      compiled.directives.get? "host" = some directive ∧
      compiled.evaluate graph {} request = .ok results ∧
      shown counted ∅ ∈ preorderAll results ∧
      ¬ JoinedBy SameScalar graph directive.lookups counted ∅ ∧
      shown written (siteName "one") ∈ preorderAll results ∧
      ¬ JoinedBy SameScalar graph directive.lookups written (siteName "one") := by
  refine ⟨reachable_graph, ofQuery_ask, rfl, evaluate_ask, List.mem_cons_self, fun h => ?_,
    List.mem_cons_of_mem _ (List.mem_cons_of_mem _ List.mem_cons_self), fun h => ?_⟩
  · have hchosen : lookup.Chooses SameScalar graph counted countedSite := by
      refine ⟨⟨rfl, rfl, rfl, .int 7, .int 7, rfl, rfl, .int 7⟩, fun w hw => ?_⟩
      have hsites := mem_sites hw
      clear hw
      revert w
      decide
    cases (h _ _).mpr (lastGives_name hchosen (by rfl))
  · have hchosen : lookup.Chooses SameScalar graph written writtenSite := by
      refine ⟨⟨rfl, rfl, rfl, .text "7", .text "7", rfl, rfl, .text "7"⟩, fun w hw => ?_⟩
      obtain ⟨p, q, hp, hq, hpq⟩ := hw.related
      have hsites := mem_sites hw
      simp only [List.mem_cons, List.not_mem_nil, or_false] at hsites
      rcases hsites with rfl | rfl | rfl
      · cases (show written.property? "code" = some (.text "7") by rfl).symm.trans hp
        cases (show countedSite.property? "code" = some (.int 7) by rfl).symm.trans hq
        cases hpq
      · exact String.le_refl _
      · decide
    have hone : (siteName "one").get? "site.name" = some (.text "one") := by rfl
    have htwo := (h _ _).mpr (lastGives_name hchosen (by rfl))
    exact absurd (Property.text.inj (Option.some.inj (hone.symm.trans htwo))) (by decide)

end Coded

end Inventory
