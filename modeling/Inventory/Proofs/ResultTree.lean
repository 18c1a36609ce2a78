import Inventory.ResultTree

/-!
# ResultTree — the nodes of a tree

Both orders list the same nodes, and every node is the top of a subtree at some
depth. Putting children in the place of nodes that are not for output leaves the
others in their order.
-/

namespace Inventory.ResultTree

mutual

theorem mem_postorder (n : ResultNode) : ∀ t : ResultTree, n ∈ t.postorder ↔ n ∈ t.preorder
  | .node m cs => by
      rw [postorder, preorder, List.mem_append, List.mem_singleton, List.mem_cons,
        mem_postorderAll n cs, or_comm]

theorem mem_postorderAll (n : ResultNode) :
    ∀ ts : List ResultTree, n ∈ postorderAll ts ↔ n ∈ preorderAll ts
  | [] => Iff.rfl
  | t :: ts => by
      rw [postorderAll, preorderAll, List.mem_append, List.mem_append, mem_postorder n t,
        mem_postorderAll n ts]

end

theorem preorder_eq (t : ResultTree) : t.preorder = t.top :: preorderAll t.children := by
  cases t
  rfl

theorem preorderAll_append (ts us : List ResultTree) :
    preorderAll (ts ++ us) = preorderAll ts ++ preorderAll us := by
  induction ts with
  | nil => rfl
  | cons t ts ih => rw [List.cons_append, preorderAll, preorderAll, ih, List.append_assoc]

theorem preorderAll_sublist {ts us : List ResultTree} (h : ts.Sublist us) :
    (preorderAll ts).Sublist (preorderAll us) := by
  induction h with
  | slnil => exact .refl _
  | cons t _ ih => exact ih.trans (List.sublist_append_right _ _)
  | cons_cons t _ ih => exact (List.Sublist.refl _).append ih

/-! ## Collapsed trees -/

theorem collapseAll_append (ts us : List ResultTree) :
    collapseAll (ts ++ us) = collapseAll ts ++ collapseAll us := by
  induction ts with
  | nil => rfl
  | cons t ts ih => rw [List.cons_append, collapseAll, collapseAll, ih, List.append_assoc]

mutual

/-- The nodes of a collapsed tree are those for output, in their order. -/
theorem preorderAll_collapse :
    ∀ t : ResultTree, preorderAll t.collapse = t.preorder.filter (!·.doNotOutput)
  | .node n cs => by
      rw [collapse, preorder, List.filter_cons]
      cases n.doNotOutput with
      | true => simp [preorderAll_collapseAll cs]
      | false => simp [preorderAll, preorder, preorderAll_collapseAll cs]

theorem preorderAll_collapseAll :
    ∀ ts : List ResultTree, preorderAll (collapseAll ts) = (preorderAll ts).filter (!·.doNotOutput)
  | [] => rfl
  | t :: ts => by
      rw [collapseAll, preorderAll_append, preorderAll_collapse t, preorderAll_collapseAll ts,
        preorderAll, List.filter_append]

end

/-! ## Subtrees -/

/-- A subtree that stands at a depth of a tree. -/
inductive At : ResultTree → Nat → ResultTree → Prop where
  | here (t : ResultTree) : At t 0 t
  | under {t c s : ResultTree} {d : Nat} : c ∈ t.children → At c d s → At t (d + 1) s

/-- The ids of all vertices of trees one after another. -/
def idsAll (ts : List ResultTree) : List VertexId := (preorderAll ts).map (·.vertex.id)

/-- The number of nodes of trees. -/
def sizeAll (ts : List ResultTree) : Nat := (preorderAll ts).length

theorem ids_node (n : ResultNode) (cs : List ResultTree) :
    (node n cs).ids = n.vertex.id :: idsAll cs := rfl

theorem size_node (n : ResultNode) (cs : List ResultTree) :
    (node n cs).size = sizeAll cs + 1 := rfl

@[simp] theorem idsAll_nil : idsAll [] = [] := rfl

@[simp] theorem sizeAll_nil : sizeAll [] = 0 := rfl

@[simp] theorem idsAll_cons (t : ResultTree) (ts : List ResultTree) :
    idsAll (t :: ts) = t.ids ++ idsAll ts := by
  simp [idsAll, ids, preorderAll]

@[simp] theorem sizeAll_cons (t : ResultTree) (ts : List ResultTree) :
    sizeAll (t :: ts) = t.size + sizeAll ts := by
  simp [sizeAll, size, preorderAll]

theorem At.child {t s c : ResultTree} {d : Nat} (h : t.At d s) (hc : c ∈ s.children) :
    t.At (d + 1) c := by
  induction h with
  | here t => exact .under hc (.here c)
  | under hc' _ ih => exact .under hc' (ih hc)

/-- What does not stand at the top stands below something. -/
theorem At.parent {t s : ResultTree} {d : Nat} (h : t.At (d + 1) s) :
    ∃ p, t.At d p ∧ s ∈ p.children := by
  induction d generalizing t with
  | zero =>
      obtain _ | ⟨hc, hs⟩ := h
      cases hs
      exact ⟨t, .here t, hc⟩
  | succ d ih =>
      obtain _ | ⟨hc, hs⟩ := h
      obtain ⟨p, hp, hsp⟩ := ih hs
      exact ⟨p, .under hc hp, hsp⟩

theorem mem_preorderAll {n : ResultNode} {ts : List ResultTree} :
    n ∈ preorderAll ts ↔ ∃ t ∈ ts, n ∈ t.preorder := by
  induction ts with
  | nil => simp [preorderAll]
  | cons t ts ih => simp [preorderAll, ih]

theorem At.mem_preorder {t s : ResultTree} {d : Nat} (h : t.At d s) : s.top ∈ t.preorder := by
  induction h with
  | here t =>
      rw [preorder_eq]
      exact List.mem_cons_self
  | @under t c s d hc _ ih =>
      rw [preorder_eq]
      exact List.mem_cons_of_mem _ (mem_preorderAll.mpr ⟨c, hc, ih⟩)

mutual

theorem at_of_mem_preorder {n : ResultNode} :
    ∀ {t : ResultTree}, n ∈ t.preorder → ∃ d s, t.At d s ∧ s.top = n
  | .node m cs, h => by
      rw [preorder, List.mem_cons] at h
      rcases h with rfl | h
      · exact ⟨0, _, .here _, rfl⟩
      · obtain ⟨c, hc, d, s, hs, hn⟩ := at_of_mem_preorderAll h
        exact ⟨d + 1, s, .under hc hs, hn⟩

theorem at_of_mem_preorderAll {n : ResultNode} :
    ∀ {ts : List ResultTree}, n ∈ preorderAll ts → ∃ t ∈ ts, ∃ d s, t.At d s ∧ s.top = n
  | t :: ts, h => by
      rw [preorderAll, List.mem_append] at h
      rcases h with h | h
      · exact ⟨t, List.mem_cons_self, at_of_mem_preorder h⟩
      · obtain ⟨c, hc, hn⟩ := at_of_mem_preorderAll h
        exact ⟨c, List.mem_cons_of_mem _ hc, hn⟩

end

/-- The nodes of a tree are the tops of its subtrees. -/
theorem mem_ids {t : ResultTree} {id : VertexId} :
    id ∈ t.ids ↔ ∃ d s, t.At d s ∧ s.top.vertex.id = id := by
  rw [ids, List.mem_map]
  constructor
  · rintro ⟨n, hn, hid⟩
    obtain ⟨d, s, hs, rfl⟩ := at_of_mem_preorder hn
    exact ⟨d, s, hs, hid⟩
  · rintro ⟨d, s, hs, hid⟩
    exact ⟨s.top, hs.mem_preorder, hid⟩

theorem ids_sublist_idsAll {t : ResultTree} {ts : List ResultTree} (h : t ∈ ts) :
    t.ids.Sublist (idsAll ts) := by
  induction ts with
  | nil => cases h
  | cons u ts ih =>
      rw [idsAll_cons]
      rcases List.mem_cons.mp h with rfl | h
      · exact List.sublist_append_left _ _
      · exact (ih h).trans (List.sublist_append_right _ _)

/-- Trees without a common vertex are told apart by any vertex in them. -/
theorem eq_of_mem_ids {ts : List ResultTree} (h : (idsAll ts).Nodup) {t t' : ResultTree}
    (ht : t ∈ ts) (ht' : t' ∈ ts) {id : VertexId} (hid : id ∈ t.ids) (hid' : id ∈ t'.ids) :
    t = t' := by
  induction ts with
  | nil => cases ht
  | cons u ts ih =>
      rw [idsAll_cons, List.nodup_append] at h
      obtain ⟨_, hts, hapart⟩ := h
      rcases List.mem_cons.mp ht with rfl | hin <;> rcases List.mem_cons.mp ht' with rfl | hin'
      · rfl
      · exact absurd rfl (hapart _ hid _ ((ids_sublist_idsAll hin').subset hid'))
      · exact absurd rfl (hapart _ hid' _ ((ids_sublist_idsAll hin).subset hid))
      · exact ih hts hin hin'

theorem once_child {t c : ResultTree} (h : t.ids.Nodup) (hc : c ∈ t.children) :
    c.ids.Nodup ∧ t.top.vertex.id ∉ c.ids := by
  obtain ⟨n, cs⟩ := t
  rw [ids_node, List.nodup_cons] at h
  have hsub : c.ids.Sublist (idsAll cs) := ids_sublist_idsAll hc
  exact ⟨h.2.sublist hsub, fun hn => h.1 (hsub.subset hn)⟩

/-- A vertex that stands once stands in one place. -/
theorem At.unique {t s s' : ResultTree} {d d' : Nat} (h : t.At d s) (honce : t.ids.Nodup)
    (h' : t.At d' s') (hid : s'.top.vertex.id = s.top.vertex.id) : d' = d ∧ s' = s := by
  induction h generalizing d' with
  | here t =>
      cases h' with
      | here => exact ⟨rfl, rfl⟩
      | under hc hs => exact absurd (mem_ids.mpr ⟨_, _, hs, hid⟩) (once_child honce hc).2
  | @under t c s d hc hs ih =>
      cases h' with
      | here => exact absurd (mem_ids.mpr ⟨_, _, hs, hid.symm⟩) (once_child honce hc).2
      | @under _ c' _ d' hc' hs' =>
          have hcs : (idsAll t.children).Nodup := by
            obtain ⟨n, cs⟩ := t
            exact (List.nodup_cons.mp honce).2
          obtain rfl : c' = c := eq_of_mem_ids hcs hc' hc (mem_ids.mpr ⟨_, _, hs', hid⟩)
            (mem_ids.mpr ⟨_, _, hs, rfl⟩)
          obtain ⟨rfl, rfl⟩ := ih (once_child honce hc).1 hs' hid
          exact ⟨rfl, rfl⟩

end Inventory.ResultTree
