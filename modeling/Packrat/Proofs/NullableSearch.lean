import Packrat.Proofs.LeftSearch

/-!
# What the search for nullable nodes finds

The search of `Grammar.isNullable` ends on every node, and it finds every nullable node. Where no left recursion can
be met along leftmost edges it finds nothing else: it never comes back to a node that it is inside of, and an item
of a sequence is only looked at if all items before it are nullable.

A choice without alternatives is the exception. Its answer is left open, as if the search were inside of it, and so it
does not keep a sequence from being found nullable.
-/

namespace Packrat

namespace Verdict

/-- Nothing is left open, and the answer is affirmative only if `nullable` holds. -/
def Settles (nullable : Prop) (verdict? : Option Verdict) : Prop :=
  verdict? = some .nullable ∧ nullable ∨ verdict? = some .consuming

variable {g : Grammar} {search : NodeId → Option Verdict}

theorem Settles.imp {p q : Prop} {verdict? : Option Verdict} (h : Settles p verdict?) (hpq : p → q) :
    Settles q verdict? :=
  h.imp_left fun ⟨hverdict, hp⟩ => ⟨hverdict, hpq hp⟩

/-- Only the leading items are looked at. -/
theorem ofSequence_settles {items : List NodeId} {settled : Bool}
    (h : ∀ item ∈ g.leadingItems items, Settles (g.Nullable item) (search item))
    (hsettled : settled = true ∨ items ≠ []) :
    Settles (∀ item ∈ items, g.Nullable item) (ofSequence search settled items) := by
  induction items generalizing settled with
  | nil =>
    have htrue : settled = true := by simpa using hsettled
    left
    simp [ofSequence, htrue]
  | cons item rest ih =>
    rcases h item (Grammar.mem_leadingItems_cons g item rest) with ⟨hitem, hnullable⟩ | hitem
    · have hrest : Settles (∀ item ∈ rest, g.Nullable item) (ofSequence search true rest) := by
        apply ih
        · intro other hother
          exact h other (Grammar.leadingItems_subset_cons hnullable rest hother)
        · exact .inl rfl
      simp only [ofSequence, hitem]
      apply hrest.imp
      intro hall
      simpa [hnullable] using hall
    · right
      simp [ofSequence, hitem]

theorem ofChoice_settles {alternatives : List NodeId} {found : Verdict}
    (h : ∀ alternative ∈ alternatives, Settles (g.Nullable alternative) (search alternative))
    (hfound : found = .consuming ∨ alternatives ≠ []) :
    Settles (∃ alternative ∈ alternatives, g.Nullable alternative) (ofChoice search found alternatives) := by
  induction alternatives generalizing found with
  | nil =>
    have hconsuming : found = .consuming := by simpa using hfound
    right
    simp [ofChoice, hconsuming]
  | cons alternative rest ih =>
    rcases h alternative List.mem_cons_self with ⟨hfirst, hnullable⟩ | hfirst
    · left
      exact ⟨by simp [ofChoice, hfirst], alternative, List.mem_cons_self, hnullable⟩
    · have hrest : Settles (∃ alternative ∈ rest, g.Nullable alternative) (ofChoice search .consuming rest) := by
        apply ih
        · intro other hother
          exact h other (List.mem_cons_of_mem _ hother)
        · exact .inl rfl
      simp only [ofChoice, hfirst]
      apply hrest.imp
      rintro ⟨other, hother, hnullable⟩
      exact ⟨other, List.mem_cons_of_mem _ hother, hnullable⟩

theorem ofPattern_settles {id : NodeId} {node : Node} (hnode : g.node? id = some node)
    (hchoice : node.pattern ≠ .choice [])
    (h : ∀ c, g.LeftEdge id c → Settles (g.Nullable c) (search c)) :
    Settles (Grammar.NullablePattern g.Nullable node.pattern) (ofPattern search node.pattern) := by
  have hcomponent : (∀ items, node.pattern ≠ .sequence items) → ∀ c ∈ node.pattern.components,
      Settles (g.Nullable c) (search c) := by
    intro hp c hc
    apply h
    rwa [Grammar.LeftEdge, Grammar.leftmost_eq_components hnode hp]
  cases hp : node.pattern with
  | literal text =>
    by_cases htext : text = ""
    · left
      simp [ofPattern, Grammar.NullablePattern, htext]
    · right
      simp [ofPattern, htext]
  | charClass cls => exact .inr rfl
  | sequence items =>
    apply ofSequence_settles
    · intro item hitem
      apply h
      rwa [Grammar.LeftEdge, Grammar.leftmost_eq_leadingItems hnode hp]
    · cases items <;> simp
  | choice alternatives =>
    apply ofChoice_settles
    · simpa [hp, Pattern.components] using hcomponent
    · right
      rintro rfl
      exact hchoice hp
  | repetition body min max? =>
    have hbody : Settles (g.Nullable body) (search body) :=
      hcomponent (by simp [hp]) body (by simp [hp, Pattern.components])
    by_cases hmin : min = 0
    · left
      simp [ofPattern, Grammar.NullablePattern, hmin]
    · simp only [ofPattern, hmin, if_false]
      exact hbody.imp .inr
  | predicate body expected => exact .inl ⟨rfl, trivial⟩
  | rule body => exact hcomponent (by simp [hp]) body (by simp [hp, Pattern.components])

/-! ## The search ends -/

variable {search' : NodeId → Option Verdict}

theorem ofSequence_mono (hs : ∀ c verdict, search c = some verdict → search' c = some verdict) {items : List NodeId}
    {settled : Bool} {verdict : Verdict} (h : ofSequence search settled items = some verdict) :
    ofSequence search' settled items = some verdict := by
  induction items generalizing settled with
  | nil => exact h
  | cons item rest ih =>
    cases hitem : search item with
    | none => simp [ofSequence, hitem] at h
    | some answer =>
      cases answer with
      | nullable =>
        simp only [ofSequence, hitem, hs _ _ hitem] at h ⊢
        exact ih h
      | consuming => simpa only [ofSequence, hitem, hs _ _ hitem] using h
      | unsettled =>
        simp only [ofSequence, hitem, hs _ _ hitem] at h ⊢
        exact ih h

theorem ofChoice_mono (hs : ∀ c verdict, search c = some verdict → search' c = some verdict)
    {alternatives : List NodeId} {found verdict : Verdict} (h : ofChoice search found alternatives = some verdict) :
    ofChoice search' found alternatives = some verdict := by
  induction alternatives generalizing found with
  | nil => exact h
  | cons alternative rest ih =>
    cases halternative : search alternative with
    | none => simp [ofChoice, halternative] at h
    | some answer =>
      cases answer with
      | nullable => simpa only [ofChoice, halternative, hs _ _ halternative] using h
      | consuming =>
        simp only [ofChoice, halternative, hs _ _ halternative] at h ⊢
        exact ih h
      | unsettled =>
        simp only [ofChoice, halternative, hs _ _ halternative] at h ⊢
        exact ih h

theorem ofPattern_mono (hs : ∀ c verdict, search c = some verdict → search' c = some verdict) {pattern : Pattern}
    {verdict : Verdict} (h : ofPattern search pattern = some verdict) : ofPattern search' pattern = some verdict := by
  cases pattern with
  | literal text => exact h
  | charClass cls => exact h
  | sequence items => exact ofSequence_mono hs h
  | choice alternatives => exact ofChoice_mono hs h
  | repetition body min max? =>
    by_cases hmin : min = 0
    · simpa only [ofPattern, hmin, if_true] using h
    · simp only [ofPattern, hmin, if_false] at h ⊢
      exact hs _ _ h
  | predicate body expected => exact h
  | rule body => exact hs _ _ h

end Verdict

namespace Grammar

variable {g : Grammar} {id : NodeId}

/-- What the search has found does not change if it may go deeper. -/
theorem verdict?_mono {depth depth' : Nat} {path : List NodeId} {verdict : Verdict}
    (h : g.verdict? depth path id = some verdict) (hle : depth ≤ depth') :
    g.verdict? depth' path id = some verdict := by
  induction depth generalizing depth' path id verdict with
  | zero => simp [verdict?] at h
  | succ depth ih =>
    obtain ⟨deeper, rfl⟩ : ∃ deeper, depth' = deeper + 1 := ⟨depth' - 1, by omega⟩
    cases hnode : g.node? id with
    | none => simpa only [verdict?, hnode] using h
    | some node =>
      by_cases hpath : path.contains id = true
      · simpa only [verdict?, hnode, hpath, if_true] using h
      · simp only [verdict?, hnode, hpath] at h ⊢
        apply Verdict.ofPattern_mono _ h
        intro c answer hc
        exact ih hc (by omega)

/-- The search from a node has an answer, which is the same at every depth that is enough. -/
theorem exists_verdict (g : Grammar) (id : NodeId) :
    ∃ verdict, ∀ depth, g.size < depth → g.verdict? depth [] id = some verdict := by
  have hsome : (g.verdict? (g.size + 1) [] id).isSome := by
    apply verdict?_isSome List.nodup_nil
    · simp
    · simp
  obtain ⟨verdict, hverdict⟩ := Option.isSome_iff_exists.1 hsome
  use verdict
  intro depth hdepth
  exact verdict?_mono hverdict hdepth

/-! ## Without left recursion the search finds nullable nodes only -/

open Relation (ReflTransGen)

/-- Below a node that is not left-recursive, and below which there is none, the search does not come back to a node of
its path. -/
theorem verdict?_settles (hg : g.WellFormed) {depth : Nat} {path : List NodeId} (hid : id < g.size)
    (hfree : ∀ c, ReflTransGen g.LeftEdge id c → g.isLeftRecursive c = false)
    (hchoice : ∀ c node, ReflTransGen g.LeftEdge id c → g.node? c = some node → node.pattern ≠ .choice [])
    (hpath : ∀ x ∈ path, ¬ ReflTransGen g.LeftEdge id x) (hnodup : path.Nodup) (hlt : ∀ x ∈ path, x < g.size)
    (hdepth : g.size < path.length + depth) : Verdict.Settles (g.Nullable id) (g.verdict? depth path id) := by
  induction depth generalizing path id with
  | zero =>
    have hlength := length_le_size hnodup hlt
    omega
  | succ depth ih =>
    obtain ⟨node, hnode⟩ := exists_node hid
    have hnot : id ∉ path := fun hmem => hpath id hmem .refl
    have hcomponents : ∀ c, g.LeftEdge id c →
        Verdict.Settles (g.Nullable c) (g.verdict? depth (id :: path) c) := by
      intro c hedge
      obtain ⟨_, hnode', hc⟩ := hedge.exists_node
      apply ih (hg.component_lt hnode' hc)
      · intro x hx
        exact hfree x (.head hedge hx)
      · intro x node hx
        exact hchoice x node (.head hedge hx)
      · intro x hx hback
        rcases List.mem_cons.1 hx with rfl | hx
        · have hrecursive := isLeftRecursive_of_path (Relation.TransGen.head' hedge hback)
          simp [hfree x .refl] at hrecursive
        · exact hpath x hx (.head hedge hback)
      · exact List.nodup_cons.2 ⟨hnot, hnodup⟩
      · simpa [hid] using hlt
      · simp only [List.length_cons]
        omega
    have hpattern := Verdict.ofPattern_settles hnode (hchoice id node .refl hnode) hcomponents
    simp only [verdict?, hnode, List.contains_eq_mem, hnot, decide_false, Bool.false_eq_true, if_false]
    exact hpattern.imp (Nullable.of_pattern hnode)

theorem Nullable.exists_pattern (h : g.Nullable id) :
    ∃ node, g.node? id = some node ∧ NullablePattern g.Nullable node.pattern := by
  cases h with
  | literal hid hp => exact ⟨_, hid, by simp [hp, NullablePattern]⟩
  | sequence hid hp hitems => exact ⟨_, hid, by rwa [hp]⟩
  | choice hid hp hmem halternative => exact ⟨_, hid, by rw [hp]; exact ⟨_, hmem, halternative⟩⟩
  | optional hid hp => exact ⟨_, hid, by simp [hp, NullablePattern]⟩
  | repetition hid hp hbody => exact ⟨_, hid, by rw [hp]; exact .inr hbody⟩
  | predicate hid hp => exact ⟨_, hid, by simp [hp, NullablePattern]⟩
  | rule hid hp hbody => exact ⟨_, hid, by rwa [hp]⟩

/-- The search for nullable nodes ends on every node, and it finds every nullable node. If neither the node nor any
node below it along leftmost edges is left-recursive, or a choice without alternatives, it finds the node only if the
node is nullable. -/
theorem Built.search_decides_nullability (hg : g.Built) (id : NodeId) :
    (∃ verdict, ∀ depth, g.size < depth → g.verdict? depth [] id = some verdict) ∧
      (g.Nullable id → g.isNullable id = true) ∧
      ((∀ c, ReflTransGen g.LeftEdge id c → g.isLeftRecursive c = false) →
        (∀ c node, ReflTransGen g.LeftEdge id c → g.node? c = some node → node.pattern ≠ .choice []) →
          g.isNullable id = true → g.Nullable id) := by
  refine ⟨g.exists_verdict id, Nullable.isNullable, ?_⟩
  intro hfree hchoice hnullable
  have hverdict : g.verdict? (g.size + 1) [] id = some .nullable := by simpa [isNullable] using hnullable
  have hid : id < g.size := by
    by_contra hge
    simp [verdict?, node?_eq_none_iff.2 (Nat.le_of_not_lt hge)] at hverdict
  have hsettles : Verdict.Settles (g.Nullable id) (g.verdict? (g.size + 1) [] id) := by
    apply verdict?_settles hg.wellFormed hid hfree hchoice
    · simp
    · exact List.nodup_nil
    · simp
    · simp
  rcases hsettles with ⟨_, hn⟩ | hconsuming
  · exact hn
  · rw [hverdict] at hconsuming
    cases hconsuming

/-- `Blank <- (" ")? Nothing` and `Nothing <- "" / "-"` -/
def blanks : Grammar := ⟨#[{ pattern := .literal " " }, { pattern := .repetition 0 0 (some 1) },
  { pattern := .literal "" }, { pattern := .literal "-" }, { pattern := .choice [2, 3] },
  { pattern := .rule 4, name? := some "Nothing" }, { pattern := .sequence [1, 5] },
  { pattern := .rule 6, name? := some "Blank" }]⟩

theorem blanks_built : blanks.Built :=
  ⟨[.add (.literal " "), .add (.repetition 0 0 (some 1)), .add (.literal ""), .add (.literal "-"), .add (.choice [2, 3]),
    .declare "Nothing" false 4, .add (.sequence [1, 5]), .declare "Blank" false 6], rfl⟩

theorem isLeftRecursive_eq_false (h : ∀ c < g.size, g.isLeftRecursive c = false) (c : NodeId) :
    g.isLeftRecursive c = false := by
  by_cases hc : c < g.size
  · exact h c hc
  · have hnode : g.node? c = none := node?_eq_none_iff.2 (Nat.le_of_not_lt hc)
    simp [isLeftRecursive, reachesItself, leftmost, hnode, finds?]

/-- The second rule is found nullable, and it is. -/
theorem blanks_search_decides_nullability : blanks.isNullable 7 = true ∧ blanks.Nullable 7 := by
  have hfound : blanks.isNullable 7 = true := by decide
  have halternatives : ∀ c < blanks.size, ∀ node ∈ blanks.node? c, node.pattern.kind = .choice →
      node.pattern.components ≠ [] := by decide
  refine ⟨hfound, (Built.search_decides_nullability blanks_built 7).2.2 ?_ ?_ hfound⟩
  · intro c _
    exact isLeftRecursive_eq_false (by decide) c
  · intro c node _ hnode hp
    exact halternatives c (lt_size_of_node? hnode) node hnode (by rw [hp, Pattern.kind]) (by rw [hp, Pattern.components])

def deadEnd : Grammar := ⟨#[{ pattern := .choice [] }, { pattern := .literal "" }, { pattern := .sequence [0, 1] }]⟩

/-- The sequence is found nullable, though it is not: its first item matches nothing at all. -/
theorem deadEnd_found_nullable :
    deadEnd.Built ∧ (∀ c, deadEnd.isLeftRecursive c = false) ∧ deadEnd.isNullable 2 = true ∧ ¬ deadEnd.Nullable 2 := by
  refine ⟨⟨[.add (.choice []), .add (.literal ""), .add (.sequence [0, 1])], rfl⟩,
    isLeftRecursive_eq_false (by decide), by decide, ?_⟩
  intro h
  obtain ⟨_, hnode, hitems⟩ := h.exists_pattern
  cases hnode
  have hfirst : deadEnd.Nullable 0 := hitems 0 (by simp)
  obtain ⟨_, hnode, halternatives⟩ := hfirst.exists_pattern
  cases hnode
  obtain ⟨_, hmem, _⟩ := halternatives
  cases hmem

end Grammar

end Packrat
