import Mathlib.Data.List.Chain
import Inventory.Proofs.Rule.Dependence
import Inventory.Proofs.Topology.Expansion

/-!
# Topology — linkage paths

A linkage path goes on below a trail over node types alone. It is followed when
there is a rule for every two types in a row, from the type at the end of the
trail on, and refused at the first two that have none. What is recorded for it,
the steps on the way or the mark at its end, stands on the trails along the
same types.
-/

namespace Inventory

/-! ## Types in a row -/

namespace RuleTable

variable {rules : RuleTable} {a b n : NodeType} {ts : List NodeType}

theorem exists_require_of_connects (h : rules.Connects a b) : ∃ m, rules.require a b = .ok m := by
  obtain ⟨r, hr, hnames⟩ := h
  cases hfound : rules.lookup a b with
  | some m => exact ⟨m, require_eq_ok.mpr hfound⟩
  | none =>
      obtain ⟨hab, hba⟩ := not_isFor_of_lookup hfound r hr
      rcases hnames with ⟨rfl, rfl⟩ | ⟨rfl, rfl⟩
      · simp [EdgeRule.isFor] at hab
      · simp [EdgeRule.isFor] at hba

theorem require_of_not_connects (h : ¬ rules.Connects a b) :
    rules.require a b = .error (.missingEdgeRule a b) := by
  cases hfound : rules.require a b with
  | ok m => exact absurd (connects_of_require hfound) h
  | error e =>
      unfold require at hfound
      split at hfound
      · cases hfound
      · exact hfound.symm

/-- Of the types in a row, two are the first that no rule is for. -/
inductive FirstGap (rules : RuleTable) : List NodeType → NodeType → NodeType → Prop where
  | here {a b : NodeType} {ts : List NodeType} : ¬ rules.Connects a b →
      FirstGap rules (a :: b :: ts) a b
  | later {n n' a b : NodeType} {ts : List NodeType} : rules.Connects n n' →
      FirstGap rules (n' :: ts) a b → FirstGap rules (n :: n' :: ts) a b

theorem not_firstGap_singleton : ¬ rules.FirstGap [n] a b := by
  intro h
  cases h

theorem firstGap_of_connects {n' : NodeType} (h : rules.Connects n n') :
    rules.FirstGap (n :: n' :: ts) a b ↔ rules.FirstGap (n' :: ts) a b := by
  constructor
  · intro hgap
    cases hgap with
    | here hnot => exact absurd h hnot
    | later _ hgap => exact hgap
  · exact .later h

theorem firstGap_of_not_connects {n' : NodeType} (h : ¬ rules.Connects n n') :
    rules.FirstGap (n :: n' :: ts) a b ↔ a = n ∧ b = n' := by
  constructor
  · intro hgap
    cases hgap with
    | here => exact ⟨rfl, rfl⟩
    | later hconnects => exact absurd hconnects h
  · rintro ⟨rfl, rfl⟩
    exact .here h

end RuleTable

/-! ## Trails along types -/

/-- The trail that goes on over node types alone. -/
def Trail.along (t : Trail) (ts : List NodeType) : Trail :=
  ⟨t.root, t.below ++ ts.map fun n => ⟨n, none⟩⟩

theorem Trail.along_nil (t : Trail) : t.along [] = t := by
  simp [Trail.along]

theorem Trail.along_cons (t : Trail) (n : NodeType) (ts : List NodeType) :
    t.along (n :: ts) = (t.extend ⟨n, none⟩).along ts := by
  simp [Trail.along, Trail.extend]

/-- Hops lead on from a trail over types: a bare step for each type, from the
trail at first and then from where the hop before ends. -/
structure Hop.Lead (t : Trail) (ts : List NodeType) (hops : List Hop) : Prop where
  steps : hops.map Hop.step = ts.map fun n => ⟨n, none⟩
  first : ∀ h ∈ hops.head?, h.start = t
  joined : hops.IsChain fun h h' => h'.start = h.finish

namespace Hop

variable {t : Trail} {n : NodeType} {ts : List NodeType} {hops : List Hop}

theorem lead_nil : Lead t [] hops ↔ hops = [] := by
  constructor
  · intro h
    simpa using h.steps
  · rintro rfl
    exact ⟨rfl, by simp, .nil⟩

theorem lead_cons :
    Lead t (n :: ts) hops ↔
      ∃ rest, hops = ⟨t, ⟨n, none⟩⟩ :: rest ∧ Lead (t.extend ⟨n, none⟩) ts rest := by
  constructor
  · intro h
    cases hops with
    | nil => simpa using h.steps
    | cons hop rest =>
        obtain ⟨hstep, hsteps⟩ := List.cons.inj h.steps
        have hhop : hop = ⟨t, ⟨n, none⟩⟩ := by
          obtain ⟨start, step⟩ := hop
          cases h.first _ rfl
          cases hstep
          rfl
        subst hhop
        obtain ⟨hnext, hjoined⟩ := List.isChain_cons.mp h.joined
        exact ⟨rest, rfl, hsteps, hnext, hjoined⟩
  · rintro ⟨rest, rfl, h⟩
    exact ⟨congrArg (_ :: ·) h.steps, by simp, List.isChain_cons.mpr ⟨h.first, h.joined⟩⟩

/-- The last hop ends where the types do. -/
theorem Lead.finish (h : Lead t ts hops) :
    (hops.getLast?.map Hop.finish).getD t = t.along ts := by
  induction ts generalizing t hops with
  | nil =>
      obtain rfl := lead_nil.mp h
      exact t.along_nil.symm
  | cons n ts ih =>
      obtain ⟨rest, rfl, hrest⟩ := lead_cons.mp h
      rw [Trail.along_cons, ← ih hrest, List.getLast?_cons]
      cases rest.getLast? <;> rfl

/-- The hops start at the trails along the types before theirs. -/
theorem Lead.mem_iff (h : Lead t ts hops) {hop : Hop} :
    hop ∈ hops ↔
      ∃ before n after, ts = before ++ n :: after ∧ hop = ⟨t.along before, ⟨n, none⟩⟩ := by
  induction ts generalizing t hops with
  | nil =>
      obtain rfl := lead_nil.mp h
      simp
  | cons n ts ih =>
      obtain ⟨rest, rfl, hrest⟩ := lead_cons.mp h
      rw [List.mem_cons, ih hrest]
      constructor
      · rintro (rfl | ⟨before, n', after, rfl, rfl⟩)
        · exact ⟨[], n, ts, rfl, by rw [Trail.along_nil]⟩
        · exact ⟨n :: before, n', after, rfl, by rw [Trail.along_cons]⟩
      · rintro ⟨before, n', after, heq, rfl⟩
        cases before with
        | nil =>
            cases heq
            exact .inl (by rw [Trail.along_nil])
        | cons n₀ before =>
            cases heq
            exact .inr ⟨before, n', after, rfl, by rw [Trail.along_cons]⟩

end Hop

/-! ## Hops along types -/

section

variable {rules : RuleTable} {t : Trail} {n : NodeType} {ts : List NodeType}

theorem hopsAlong_of_connects (h : rules.Connects t.last.nodeType n) :
    hopsAlong rules t (n :: ts) =
      (hopsAlong rules (t.extend ⟨n, none⟩) ts).map (⟨t, ⟨n, none⟩⟩ :: ·) := by
  obtain ⟨m, hm⟩ := RuleTable.exists_require_of_connects h
  rw [hopsAlong, hm]
  cases hopsAlong rules (t.extend ⟨n, none⟩) ts <;> rfl

theorem hopsAlong_of_not_connects (h : ¬ rules.Connects t.last.nodeType n) :
    hopsAlong rules t (n :: ts) = .error (.missingEdgeRule t.last.nodeType n) := by
  rw [hopsAlong, RuleTable.require_of_not_connects h]
  rfl

theorem exists_hopsAlong_iff :
    (∃ hops, hopsAlong rules t ts = .ok hops) ↔
      (t.last.nodeType :: ts).IsChain rules.Connects := by
  induction ts generalizing t with
  | nil => simp [hopsAlong]
  | cons n ts ih =>
      rw [List.isChain_cons_cons]
      by_cases h : rules.Connects t.last.nodeType n
      · have hrest := ih (t := t.extend ⟨n, none⟩)
        rw [Trail.last_extend] at hrest
        rw [hopsAlong_of_connects h, ← hrest]
        cases hopsAlong rules (t.extend ⟨n, none⟩) ts <;> simp [Except.map, h]
      · rw [hopsAlong_of_not_connects h]
        simp [h]

/-- What is returned are the hops that lead over the types. -/
theorem hopsAlong_leads {hops : List Hop} (h : hopsAlong rules t ts = .ok hops) {hops' : List Hop} :
    Hop.Lead t ts hops' ↔ hops' = hops := by
  induction ts generalizing t hops hops' with
  | nil =>
      cases h
      exact Hop.lead_nil
  | cons n ts ih =>
      obtain ⟨m, -, h⟩ := Outcome.bind_eq_ok.mp h
      obtain ⟨rest, hrest, h⟩ := Outcome.bind_eq_ok.mp h
      cases h
      rw [Hop.lead_cons]
      simp only [ih hrest, exists_eq_right]

theorem hopsAlong_eq_error {e : Error} :
    hopsAlong rules t ts = .error e ↔
      ∃ a b, rules.FirstGap (t.last.nodeType :: ts) a b ∧ e = .missingEdgeRule a b := by
  induction ts generalizing t with
  | nil => simp [hopsAlong, RuleTable.not_firstGap_singleton]
  | cons n ts ih =>
      by_cases h : rules.Connects t.last.nodeType n
      · have hrest := ih (t := t.extend ⟨n, none⟩)
        rw [Trail.last_extend] at hrest
        simp only [RuleTable.firstGap_of_connects h]
        rw [hopsAlong_of_connects h, ← hrest]
        cases hopsAlong rules (t.extend ⟨n, none⟩) ts <;> simp [Except.map]
      · simp only [RuleTable.firstGap_of_not_connects h]
        rw [hopsAlong_of_not_connects h]
        constructor
        · intro he
          cases he
          exact ⟨_, _, ⟨rfl, rfl⟩, rfl⟩
        · rintro ⟨_, _, ⟨rfl, rfl⟩, rfl⟩
          rfl

end

/-! ## Linkage paths -/

/-- There is a rule for every two types in a row, from the end of the trail on. -/
def LinkagePath.Joined (rules : RuleTable) (t : Trail) (path : LinkagePath) : Prop :=
  (t.last.nodeType :: path.beyond t).IsChain rules.Connects

/-- The trail that a path ends at. -/
def LinkagePath.ending (t : Trail) (path : LinkagePath) : Trail := t.along (path.beyond t)

/-- How a path goes on below a trail over the types that it adds. -/
structure LinkagePath.Followed (rules : RuleTable) (t : Trail) (path : LinkagePath)
    (ts : List NodeType) : Prop where
  /-- Added are all types but a first one that the trail ends at. -/
  adds : path.steps = t.last.nodeType :: ts ∨
    path.steps = ts ∧ ts.head? ≠ some t.last.nodeType
  found : (∃ hops, linkageHops rules t path = .ok hops) ↔
    (t.last.nodeType :: ts).IsChain rules.Connects
  refused : ∀ e, linkageHops rules t path = .error e ↔
    ∃ a b, rules.FirstGap (t.last.nodeType :: ts) a b ∧ e = .missingEdgeRule a b
  leads : ∀ {hops}, linkageHops rules t path = .ok hops →
    Hop.Lead t ts hops ∧ (hops.getLast?.map Hop.finish).getD t = t.along ts

section

variable {rules : RuleTable} {t : Trail} {d d' : Descent} {e : Element}

theorem LinkagePath.beyond_cases (path : LinkagePath) (t : Trail) :
    path.steps = t.last.nodeType :: path.beyond t ∨
      path.steps = path.beyond t ∧ (path.beyond t).head? ≠ some t.last.nodeType := by
  unfold beyond
  cases path.steps with
  | nil => simp
  | cons n ts =>
      by_cases h : n = t.last.nodeType
      · simp [h]
      · simp [h]

theorem linkageHops_lead {path : LinkagePath} {hops : List Hop}
    (h : linkageHops rules t path = .ok hops) : Hop.Lead t (path.beyond t) hops :=
  (hopsAlong_leads h).mpr rfl

theorem LinkagePath.followed (rules : RuleTable) (t : Trail) (path : LinkagePath) :
    path.Followed rules t (path.beyond t) where
  adds := path.beyond_cases t
  found := exists_hopsAlong_iff
  refused _ := hopsAlong_eq_error
  leads h := ⟨linkageHops_lead h, (linkageHops_lead h).finish⟩

/-! ## What is recorded for them -/

/-- Along every path of an element, each type may follow the trail over the types
before it. -/
theorem holds_recordLinkage (h : d.recordLinkage rules .topology e t = .ok d') {r : Record} :
    d'.Holds r ↔ d.Holds r ∨ ∃ path ∈ e.linkagePoints, ∃ before n after,
      path.beyond t = before ++ n :: after ∧ r = .step (t.along before).key ⟨n, none⟩ := by
  refine Descent.holds_foldlM (N := fun path r => ∃ before n after,
    path.beyond t = before ++ n :: after ∧ r = .step (t.along before).key ⟨n, none⟩)
    (fun path _ d₁ d₂ hstep r => ?_) h
  obtain ⟨hops, hhops, rfl⟩ := Place.recordLinkage_step.mp hstep
  rw [Descent.recordHops, Descent.holds_allowAll]
  refine or_congr_right ⟨?_, ?_⟩
  · rintro ⟨hop, hmem, rfl⟩
    obtain ⟨before, n, after, heq, rfl⟩ := (linkageHops_lead hhops).mem_iff.mp hmem
    exact ⟨before, n, after, heq, rfl⟩
  · rintro ⟨before, n, after, heq, rfl⟩
    exact ⟨_, (linkageHops_lead hhops).mem_iff.mpr ⟨before, n, after, heq, rfl⟩, rfl⟩

/-- One linkage path puts one mark, at its end. -/
theorem recordLinkage_deletion_step {path : LinkagePath} :
    (do let hops ← linkageHops rules t path; .ok (d.recordHops .deletion e t hops)) =
        (.ok d' : Outcome Descent) ↔
      path.Joined rules t ∧ d' = d.flag (path.ending t) e.deletable := by
  rw [Place.recordLinkage_step, LinkagePath.Joined, ← exists_hopsAlong_iff]
  constructor
  · rintro ⟨hops, hhops, rfl⟩
    exact ⟨⟨hops, hhops⟩, by rw [Descent.recordHops, (linkageHops_lead hhops).finish]; rfl⟩
  · rintro ⟨⟨hops, hhops⟩, rfl⟩
    exact ⟨hops, hhops, by rw [Descent.recordHops, (linkageHops_lead hhops).finish]; rfl⟩

/-- The end of every path of an element is marked, as long as there are rules. -/
theorem recordLinkage_deletion :
    d.recordLinkage rules .deletion e t = .ok d' ↔
      (∀ path ∈ e.linkagePoints, path.Joined rules t) ∧
        d' = e.linkagePoints.foldl (fun d path => d.flag (path.ending t) e.deletable) d := by
  unfold Descent.recordLinkage
  induction e.linkagePoints generalizing d with
  | nil => simp [eq_comm, pure, Except.pure]
  | cons path paths ih =>
      rw [Outcome.foldlM_cons_eq_ok, List.forall_mem_cons, List.foldl_cons]
      simp only [recordLinkage_deletion_step, ih]
      constructor
      · rintro ⟨_, ⟨hpath, rfl⟩, hpaths, hd⟩
        exact ⟨⟨hpath, hpaths⟩, hd⟩
      · rintro ⟨⟨hpath, hpaths⟩, hd⟩
        exact ⟨_, ⟨hpath, rfl⟩, hpaths, hd⟩

end

/-- **Linkage paths go on along their types.** A path is followed below a trail
exactly when there is a rule, given either way round, for every two types in a
row, and otherwise refused at the first two without one; its hops then lead over
its types, one bare step after another, and end where all of them do. A descent
for the topology lets the same steps follow the same trails, and one for deletion
marks the trail at the end of each path. -/
theorem linkageHops_follows (rules : RuleTable) (t : Trail) :
    (∀ path : LinkagePath, path.Followed rules t (path.beyond t)) ∧
      ∀ (e : Element) (d d' : Descent),
        (d.recordLinkage rules .topology e t = .ok d' → ∀ r, d'.Holds r ↔
          d.Holds r ∨ ∃ path ∈ e.linkagePoints, ∃ before n after,
            path.beyond t = before ++ n :: after ∧ r = .step (t.along before).key ⟨n, none⟩) ∧
        (d.recordLinkage rules .deletion e t = .ok d' ↔
          (∀ path ∈ e.linkagePoints, path.Joined rules t) ∧
            d' = e.linkagePoints.foldl (fun d path => d.flag (path.ending t) e.deletable) d) :=
  ⟨fun path => path.followed rules t,
    fun _ _ _ => ⟨fun h _ => holds_recordLinkage h, recordLinkage_deletion⟩⟩

/-! ### A port that leads to a server -/

namespace Wired

/-- The rule of links and interfaces is given the other way round. -/
def rules : RuleTable :=
  ⟨[⟨"link", "interface", "uses", .outgoing, .manyToMany, false⟩,
    ⟨"link", "server", "ends-at", .outgoing, .manyToOne, false⟩]⟩

def trail : Trail := ⟨⟨"machine", none⟩, [⟨"interface", some ⟨"port", "1"⟩⟩]⟩

/-- A path each of whose hops has a rule. -/
def toServer : LinkagePath := ⟨["interface", "link", "server"]⟩

/-- A path with a hop that has none, from a link to a machine. -/
def toMachine : LinkagePath := ⟨["link", "machine", "server"]⟩

def port : Element := ⟨"port", none, false, [toServer, ⟨["link"]⟩]⟩

/-- The hops of the first path after the interface, which is the port's own type. -/
def hops : List Hop :=
  [⟨trail, ⟨"link", none⟩⟩, ⟨trail.extend ⟨"link", none⟩, ⟨"server", none⟩⟩]

def start : Descent := { topology := ⟨⟨"machine", none⟩, ∅⟩ }

/-- The first path leaves the port itself out, and its end is marked, not the
link on the way. The second path marks the link. A link leads to no machine. -/
theorem linkageHops_follows_port :
    linkageHops rules trail toServer = .ok hops ∧ Hop.Lead trail ["link", "server"] hops ∧
      rules.FirstGap ["interface", "link", "machine", "server"] "link" "machine" ∧
      linkageHops rules trail toMachine = .error (.missingEdgeRule "link" "machine") ∧
      start.recordLinkage rules .deletion port trail =
        .ok ((start.flag (trail.along ["link", "server"]) false).flag (trail.along ["link"]) false) ∧
      ∃ d, start.recordLinkage rules .topology port trail = .ok d ∧
        d.Holds (.step "machine|interface,port,1|link" ⟨"server", none⟩) := by
  obtain ⟨hpaths, hrecords⟩ := linkageHops_follows rules trail
  have hserver : linkageHops rules trail toServer = .ok hops := by decide +kernel
  have hmachine : linkageHops rules trail toMachine = .error (.missingEdgeRule "link" "machine") := by
    decide +kernel
  have hjoined : ∀ path ∈ port.linkagePoints, path.Joined rules trail := by
    intro path hpath
    obtain ⟨hops, hhops⟩ : ∃ hops, linkageHops rules trail path = .ok hops := by
      simp only [port, List.mem_cons, List.not_mem_nil, or_false] at hpath
      rcases hpath with rfl | rfl
      · exact ⟨hops, hserver⟩
      · exact ⟨[⟨trail, ⟨"link", none⟩⟩], by decide +kernel⟩
    exact (hpaths path).found.mp ⟨hops, hhops⟩
  have hgap : rules.FirstGap ["interface", "link", "machine", "server"] "link" "machine" := by
    obtain ⟨a, b, hgap, he⟩ := ((hpaths toMachine).refused _).mp hmachine
    cases he
    exact hgap
  have hcompiles : (start.recordLinkage rules .topology port trail).toOption.isSome := by
    decide +kernel
  obtain ⟨d, hd⟩ : ∃ d, start.recordLinkage rules .topology port trail = .ok d := by
    cases h : start.recordLinkage rules .topology port trail with
    | ok d => exact ⟨d, rfl⟩
    | error e => simp [h, Except.toOption] at hcompiles
  have hkey : "machine|interface,port,1|link" = (trail.along ["link"]).key := by decide +kernel
  refine ⟨hserver, ((hpaths toServer).leads hserver).1, hgap, hmachine,
    (hrecords port start _).2.mpr ⟨hjoined, rfl⟩, d, hd, ?_⟩
  rw [hkey]
  exact ((hrecords port start d).1 hd _).mpr
    (.inr ⟨toServer, by decide, ["link"], "server", [], rfl, rfl⟩)

end Wired

end Inventory
