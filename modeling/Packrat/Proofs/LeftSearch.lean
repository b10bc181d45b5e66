import Packrat.Proofs.LeftEdges
import Mathlib.Algebra.BigOperators.Fin
import Mathlib.Algebra.Order.BigOperators.Group.Finset

/-!
# The search along leftmost edges

A node is found to lead back to itself if and only if it does so along leftmost edges. The search has enough
steps, since the references of a node are put into the work once at most. If it meets its target, it has come
there along edges that it follows; and if it ends without having met it, the nodes it has seen are closed under
these edges, so that no path leads from them to the target.
-/

namespace Packrat

namespace Grammar

variable {g : Grammar} {direct : Bool} {id c target steps : Nat} {seen work : List NodeId}

/-- An edge that the search follows: one that does not begin at a visible rule, if the search stops there. -/
def FollowedEdge (g : Grammar) (direct : Bool) (id c : NodeId) : Prop :=
  g.LeftEdge id c ∧ (direct = true → g.isVisible id ≠ true)

/-! ## The search ends -/

def unseen (g : Grammar) (seen : List NodeId) : Nat :=
  ∑ id ∈ (Finset.range g.size).filter (· ∉ seen), (g.leftmost id).length

theorem leadingItems_length_le (g : Grammar) (items : List NodeId) :
    (g.leadingItems items).length ≤ items.length := by
  induction items with
  | nil => simp [leadingItems]
  | cons item rest ih =>
    simp only [leadingItems]
    split
    · simpa using ih
    · simp

theorem leftmost_length_le {node : Node} (hnode : g.node? id = some node) :
    (g.leftmost id).length ≤ node.pattern.components.length := by
  by_cases hp : ∃ items, node.pattern = .sequence items
  · obtain ⟨items, hp⟩ := hp
    rw [leftmost_eq_leadingItems hnode hp, hp]
    exact g.leadingItems_length_le items
  · rw [leftmost_eq_components hnode fun items hi => hp ⟨items, hi⟩]

theorem unseen_nil_le (g : Grammar) : g.unseen [] ≤ g.referenceCount := by
  have hcount : g.referenceCount = ∑ i : Fin g.nodes.toList.length, g.nodes.toList[i.1].pattern.components.length := by
    rw [Fin.sum_univ_fun_getElem g.nodes.toList fun node => node.pattern.components.length,
      List.sum_eq_foldl, List.foldl_map, referenceCount, Array.foldl_toList]
  have hunseen : g.unseen [] = ∑ i : Fin g.nodes.toList.length, (g.leftmost i).length := by
    rw [unseen, Finset.filter_true_of_mem (by simp), Finset.sum_range]
    rfl
  rw [hcount, hunseen]
  refine Finset.sum_le_sum fun i _ => leftmost_length_le ?_
  simp [node?]

/-- A node that has just been seen leaves its references out of the count. -/
theorem unseen_cons_le (hnew : id ∉ seen) : (g.leftmost id).length + g.unseen (id :: seen) ≤ g.unseen seen := by
  have hfilter : (Finset.range g.size).filter (· ∉ id :: seen) =
      ((Finset.range g.size).filter (· ∉ seen)).erase id := by
    ext x
    simp only [Finset.mem_filter, Finset.mem_erase, List.mem_cons, not_or]
    tauto
  unfold unseen
  rw [hfilter]
  by_cases hid : id < g.size
  · have hmem : id ∈ (Finset.range g.size).filter (· ∉ seen) := by simp [hid, hnew]
    rw [Finset.add_sum_erase _ (fun x => (g.leftmost x).length) hmem]
  · have hnode : g.node? id = none := node?_eq_none_iff.2 (Nat.le_of_not_lt hid)
    have hempty : g.leftmost id = [] := by simp [leftmost, hnode]
    rw [hempty, List.length_nil, Nat.zero_add]
    exact Finset.sum_le_sum_of_subset (Finset.erase_subset _ _)

/-- One step for each entry of the work, and one for each reference that can still get into it, are enough. -/
theorem finds?_isSome (hsteps : work.length + g.unseen seen ≤ steps) :
    (g.finds? direct target steps seen work).isSome := by
  induction steps generalizing seen work with
  | zero =>
    obtain rfl : work = [] := List.length_eq_zero_iff.1 (by omega)
    rfl
  | succ steps ih =>
    cases work with
    | nil => rfl
    | cons id rest =>
      rw [List.length_cons] at hsteps
      rw [finds?]
      split
      · rfl
      · split
        · exact ih (by omega)
        · rename_i hnew
          have hcons := unseen_cons_le (g := g) (by simpa using hnew)
          split
          · exact ih (by omega)
          · refine ih ?_
            rw [List.length_append]
            omega

/-! ## What the search has not met is out of reach -/

/-- Where an edge leads from a node that has been seen, the other end has been seen or waits in the work. -/
def Explored (g : Grammar) (direct : Bool) (seen work : List NodeId) : Prop :=
  ∀ id ∈ seen, ∀ c, g.FollowedEdge direct id c → c ∈ seen ∨ c ∈ work

/-- With no work left, no path leads out of the nodes that have been seen. -/
theorem Explored.mem_of_path (h : g.Explored direct seen []) (hid : id ∈ seen)
    (hpath : Relation.ReflTransGen (g.FollowedEdge direct) id c) : c ∈ seen := by
  induction hpath with
  | refl => exact hid
  | tail _ hedge ih => exact (h _ ih _ hedge).resolve_right List.not_mem_nil

/-- From the nodes that a failed search has seen, and from those that are waiting, no path leads to the
target. -/
theorem not_path_of_finds? (htarget : target ∉ seen) (hexplored : g.Explored direct seen work)
    (h : g.finds? direct target steps seen work = some false) (hid : id ∈ seen ∨ id ∈ work) :
    ¬ Relation.ReflTransGen (g.FollowedEdge direct) id target := by
  induction steps generalizing seen work id with
  | zero =>
    cases work with
    | nil => exact fun hpath => htarget (hexplored.mem_of_path (hid.resolve_right List.not_mem_nil) hpath)
    | cons first rest => nomatch h
  | succ steps ih =>
    cases work with
    | nil => exact fun hpath => htarget (hexplored.mem_of_path (hid.resolve_right List.not_mem_nil) hpath)
    | cons first rest =>
      rw [finds?] at h
      split at h
      · nomatch h
      · rename_i hfirst
        split at h
        · rename_i hold
          -- the node has been seen before, so that nothing is lost when it leaves the work
          have hold : first ∈ seen := by simpa using hold
          refine ih htarget ?_ h ?_
          · intro x hx c hedge
            rcases hexplored x hx c hedge with hc | hc
            · exact .inl hc
            · rcases List.mem_cons.1 hc with rfl | hc
              · exact .inl hold
              · exact .inr hc
          · rcases hid with hid | hid
            · exact .inl hid
            · rcases List.mem_cons.1 hid with rfl | hid
              · exact .inl hold
              · exact .inr hid
        · have htarget' : target ∉ first :: seen := by
            simp [htarget, Ne.symm hfirst]
          have hwaiting : ∀ {x}, x ∈ seen ∨ x ∈ first :: rest → x ∈ first :: seen ∨ x ∈ rest := by
            intro x hx
            rcases hx with hx | hx
            · exact .inl (List.mem_cons_of_mem _ hx)
            · rcases List.mem_cons.1 hx with rfl | hx
              · exact .inl List.mem_cons_self
              · exact .inr hx
          split at h
          · rename_i hstops
            obtain ⟨hdirect, hvisible⟩ := Bool.and_eq_true_iff.1 hstops
            refine ih htarget' ?_ h (hwaiting hid)
            intro x hx c hedge
            rcases List.mem_cons.1 hx with rfl | hx
            · exact absurd hvisible (hedge.2 hdirect)
            · exact hwaiting (hexplored x hx c hedge)
          · refine ih htarget' ?_ h ((hwaiting hid).imp_right fun hx => List.mem_append_right _ hx)
            intro x hx c hedge
            rcases List.mem_cons.1 hx with rfl | hx
            · exact .inr (List.mem_append_left _ hedge.1)
            · exact (hwaiting (hexplored x hx c hedge)).imp_right fun hc => List.mem_append_right _ hc

/-! ## What the search meets is within reach -/

/-- A search that succeeds has followed a path from one of the nodes that were waiting. -/
theorem path_of_finds? (h : g.finds? direct target steps seen work = some true) :
    ∃ c ∈ work, Relation.ReflTransGen (g.FollowedEdge direct) c target := by
  induction steps generalizing seen work with
  | zero =>
    cases work with
    | nil => nomatch h
    | cons id rest => nomatch h
  | succ steps ih =>
    cases work with
    | nil => nomatch h
    | cons id rest =>
      have hlater : (∃ c ∈ rest, Relation.ReflTransGen (g.FollowedEdge direct) c target) →
          ∃ c ∈ id :: rest, Relation.ReflTransGen (g.FollowedEdge direct) c target :=
        fun ⟨c, hc, hpath⟩ => ⟨c, List.mem_cons_of_mem _ hc, hpath⟩
      rw [finds?] at h
      split at h
      · rename_i htarget
        exact ⟨id, List.mem_cons_self, htarget ▸ .refl⟩
      · split at h
        · exact hlater (ih h)
        · split at h
          · exact hlater (ih h)
          · rename_i hfollowed
            obtain ⟨c, hc, hpath⟩ := ih h
            rcases List.mem_append.1 hc with hc | hc
            · -- the path goes on from the node that has just been taken
              have hedge : g.FollowedEdge direct id c :=
                ⟨hc, fun hdirect hvisible => hfollowed (by simp [hdirect, hvisible])⟩
              exact ⟨id, List.mem_cons_self, .head hedge hpath⟩
            · exact hlater ⟨c, hc, hpath⟩

/-- The search for a node from its own leftmost components ends, and tells whether a path leads back to the node.
The first edge of the path begins at the node itself, and is followed in any case. -/
theorem exists_finds? (hsteps : (g.leftmost id).length + g.referenceCount ≤ steps) :
    ∃ found, g.finds? direct id steps [] (g.leftmost id) = some found ∧
      (found = true ↔ ∃ c, g.LeftEdge id c ∧ Relation.ReflTransGen (g.FollowedEdge direct) c id) := by
  have hends : (g.finds? direct id steps [] (g.leftmost id)).isSome :=
    finds?_isSome (Nat.le_trans (Nat.add_le_add_left g.unseen_nil_le _) hsteps)
  obtain ⟨found, hfound⟩ := Option.isSome_iff_exists.1 hends
  refine ⟨found, hfound, ?_, ?_⟩
  · rintro rfl
    exact path_of_finds? hfound
  · rintro ⟨c, hedge, hpath⟩
    cases found with
    | true => rfl
    | false =>
      have hexplored : g.Explored direct [] (g.leftmost id) := fun x hx => nomatch hx
      exact absurd hpath (not_path_of_finds? List.not_mem_nil hexplored hfound (.inr hedge))

theorem reachesItself_iff : g.reachesItself direct id = true ↔
    ∃ c, g.LeftEdge id c ∧ Relation.ReflTransGen (g.FollowedEdge direct) c id := by
  obtain ⟨found, hfound, hiff⟩ := exists_finds? (Nat.le_refl ((g.leftmost id).length + g.referenceCount))
  rw [← hiff]
  simp [reachesItself, hfound]

/-- Left recursion of any kind is found. -/
theorem isLeftRecursive_of_path (h : Relation.TransGen g.LeftEdge id id) : g.isLeftRecursive id = true := by
  obtain ⟨c, hedge, hpath⟩ := Relation.TransGen.head'_iff.1 h
  refine reachesItself_iff.2 ⟨c, hedge, Relation.ReflTransGen.mono ?_ _ _ hpath⟩
  exact fun a b hab => ⟨hab, fun hdirect => nomatch hdirect⟩

/-- The node leads to `c` along leftmost edges, and passes no visible rule on the way. -/
def CallsDirectly (g : Grammar) (id c : NodeId) : Prop :=
  ∃ first, g.LeftEdge id first ∧ Relation.ReflTransGen (g.FollowedEdge true) first c

theorem isDirectlyLeftRecursive_of_path (h : g.CallsDirectly id id) : g.isDirectlyLeftRecursive id = true :=
  reachesItself_iff.2 h

end Grammar

end Packrat
