import Packrat.Proofs.Replay

/-!
# The body of a left-recursive rule

A rule whose body is a choice between recursive alternatives, which begin with the rule itself, and base
alternatives, which do not reach it. One trial of the body is compared with what stands behind the
recursive alternatives, matched from the end of the rule's entry: as long as the entry is a failure the
recursive alternatives fail, and once it is a success they match whatever stands behind them.
-/

namespace Packrat

open Session Pattern

/-- Sessions that agree lead both calls to the same match, if both end, and to sessions that agree. -/
def Agrees (known : NodeId → Prop) (x₁ x₂ : Session → Answer) : Prop :=
  ∀ s₁ s₂ m₁ t₁ m₂ t₂, s₁.AgreeOn known s₂ → x₁ s₁ = .done (m₁, t₁) → x₂ s₂ = .done (m₂, t₂) →
    m₁ = m₂ ∧ t₁.AgreeOn known t₂

namespace Pattern

variable {known : NodeId → Prop} {call₁ call₂ : Evaluator} {s₁ s₂ t₁ t₂ : Session} {m₁ m₂ : Match}

theorem matchAlternatives_agrees {alternatives : List NodeId} (start : Nat)
    (hcall : ∀ c ∈ alternatives, Agrees known (call₁ c) (call₂ c)) :
    Agrees known (matchAlternatives call₁ start alternatives) (matchAlternatives call₂ start alternatives) := by
  induction alternatives with
  | nil =>
    rintro s₁ s₂ m₁ t₁ m₂ t₂ hs h₁ h₂
    obtain ⟨rfl, rfl⟩ := Prod.mk.inj (Run.done.inj h₁)
    obtain ⟨rfl, rfl⟩ := Prod.mk.inj (Run.done.inj h₂)
    exact ⟨rfl, hs⟩
  | cons alternative rest ih =>
    intro s₁ s₂ m₁ t₁ m₂ t₂ hs h₁ h₂
    rw [matchAlternatives] at h₁ h₂
    obtain ⟨⟨child, u₁⟩, hc₁, h₁⟩ := Run.bind_eq_done_iff.1 h₁
    obtain ⟨⟨child', u₂⟩, hc₂, h₂⟩ := Run.bind_eq_done_iff.1 h₂
    obtain ⟨rfl, hu⟩ := hcall alternative (by simp) _ _ _ _ _ _ hs hc₁ hc₂
    dsimp only at h₁ h₂
    split at h₁
    · rename_i hsuccess
      rw [if_pos hsuccess] at h₂
      obtain ⟨rfl, rfl⟩ := Prod.mk.inj (Run.done.inj h₁)
      obtain ⟨rfl, rfl⟩ := Prod.mk.inj (Run.done.inj h₂)
      exact ⟨rfl, hu⟩
    · rename_i hfail
      rw [if_neg hfail] at h₂
      obtain ⟨v₁, hv₁, h₁⟩ := Run.bind_eq_done_iff.1 h₁
      obtain ⟨v₂, hv₂, h₂⟩ := Run.bind_eq_done_iff.1 h₂
      obtain ⟨hle, rfl⟩ := moveToR_eq_done_iff.1 hv₁
      obtain ⟨_, rfl⟩ := moveToR_eq_done_iff.1 hv₂
      exact ih (fun c hc => hcall c (by simp [hc])) _ _ _ _ _ _
        ((AgreeOn.agreement known).seek hle hu) h₁ h₂

/-- The same items after different beginnings that end at the same position. -/
theorem matchItems_agrees {items : List NodeId} (hcall : ∀ c ∈ items, Agrees known (call₁ c) (call₂ c))
    {start₁ start₂ : Nat} {acc₁ acc₂ : Match} (hs : s₁.AgreeOn known s₂) (hacc₁ : acc₁.success = true)
    (hacc₂ : acc₂.success = true) (hstop : acc₁.stop = acc₂.stop)
    (h₁ : matchItems call₁ start₁ items acc₁ s₁ = .done (m₁, t₁))
    (h₂ : matchItems call₂ start₂ items acc₂ s₂ = .done (m₂, t₂)) :
    t₁.ShareOn known t₂ ∧ m₁.success = m₂.success ∧ (m₁.success = true → m₁.stop = m₂.stop ∧
      ∃ children, m₁.children = acc₁.children ++ children ∧ m₂.children = acc₂.children ++ children) := by
  induction items generalizing acc₁ acc₂ s₁ s₂ with
  | nil =>
    obtain ⟨rfl, rfl⟩ := Prod.mk.inj (Run.done.inj h₁)
    obtain ⟨rfl, rfl⟩ := Prod.mk.inj (Run.done.inj h₂)
    exact ⟨hs.toShareOn, hacc₁.trans hacc₂.symm, fun _ => ⟨hstop, [], by simp, by simp⟩⟩
  | cons item rest ih =>
    rw [matchItems] at h₁ h₂
    obtain ⟨⟨child, u₁⟩, hc₁, h₁⟩ := Run.bind_eq_done_iff.1 h₁
    obtain ⟨⟨child', u₂⟩, hc₂, h₂⟩ := Run.bind_eq_done_iff.1 h₂
    obtain ⟨rfl, hu⟩ := hcall item (by simp) _ _ _ _ _ _ hs hc₁ hc₂
    dsimp only at h₁ h₂
    split at h₁
    · rename_i hsuccess
      rw [if_pos hsuccess] at h₂
      have hstop' : (acc₁.push child).stop = (acc₂.push child).stop := rfl
      obtain ⟨ht, hsame, hrest⟩ := ih (fun c hc => hcall c (by simp [hc])) hu (by simpa using hacc₁)
        (by simpa using hacc₂) hstop' h₁ h₂
      refine ⟨ht, hsame, fun h => ?_⟩
      obtain ⟨hm, children, hm₁, hm₂⟩ := hrest h
      exact ⟨hm, child :: children, by simp [hm₁], by simp [hm₂]⟩
    · rename_i hfail
      rw [if_neg hfail] at h₂
      obtain ⟨v₁, hv₁, h₁⟩ := Run.bind_eq_done_iff.1 h₁
      obtain ⟨v₂, hv₂, h₂⟩ := Run.bind_eq_done_iff.1 h₂
      obtain ⟨_, rfl⟩ := moveToR_eq_done_iff.1 hv₁
      obtain ⟨_, rfl⟩ := moveToR_eq_done_iff.1 hv₂
      obtain ⟨rfl, rfl⟩ := Prod.mk.inj (Run.done.inj h₁)
      obtain ⟨rfl, rfl⟩ := Prod.mk.inj (Run.done.inj h₂)
      exact ⟨hu.toShareOn.of_eq rfl rfl rfl rfl, rfl, fun h => by simp at h⟩

end Pattern

namespace Grammar

variable {g : Grammar} {pending : Pending} {rule id c : NodeId} {pattern : Pattern} {node : Node}
  {depth depth' : Nat} {s t : Session} {m : Match}

def HasPattern (g : Grammar) (id : NodeId) (pattern : Pattern) : Prop :=
  ∃ node, g.node? id = some node ∧ node.pattern = pattern

def Component (g : Grammar) (id c : NodeId) : Prop :=
  ∃ node, g.node? id = some node ∧ c ∈ node.pattern.components

/-- The rule cannot be reached from the node. -/
def Apart (g : Grammar) (rule id : NodeId) : Prop := ¬ Relation.ReflTransGen g.Component id rule

theorem Apart.ne (h : g.Apart rule id) : id ≠ rule := by
  rintro rfl
  exact h .refl

theorem Apart.component (id : NodeId) (node : Node) (h : g.Apart rule id) (hnode : g.node? id = some node) :
    ∀ c ∈ node.pattern.components, g.Apart rule c :=
  fun _ hc hreach => h (.head ⟨node, hnode, hc⟩ hreach)

/-- What is closed under components and does not hold of the rule keeps nodes apart from it. -/
theorem apart_of_closed (closed : NodeId → Prop) (hclosed : ∀ id c, closed id → g.Component id c → closed c)
    (hid : closed id) (hrule : ¬ closed rule) : g.Apart rule id := by
  have hreached : ∀ c, Relation.ReflTransGen g.Component id c → closed c := by
    intro c hc
    induction hc with
    | refl => exact hid
    | tail _ hc ih => exact hclosed _ _ ih hc
  exact fun hreach => hrule (hreached rule hreach)

theorem run_agrees_of_apart (h : g.Apart rule c) : Agrees (g.Apart rule) (g.run depth c) (g.run depth' c) :=
  fun _ _ _ _ _ _ hs h₁ h₂ => run_agrees Apart.component h hs h₁ h₂

theorem run_pattern (hg : g.WellFormed) (hp : g.HasPattern id pattern) (hkind : pattern.kind ≠ .rule)
    (h : g.run depth id s = .done (m, t)) :
    ∃ d label s' n t' origin, depth = d + 1 ∧ s'.Alike s ∧ pattern.eval (g.run d) label s' = .done (n, t') ∧
      origin.hidden = true ∧ m = n.stamp origin ∧ t.Alike t' := by
  obtain ⟨node, hnode, rfl⟩ := hp
  have hname : node.name? = none := by
    by_contra hname
    exact hkind (hg.kind_of_name hnode (by simpa [Option.isSome_iff_ne_none] using hname))
  have hhidden : node.hidden = true := by simp [Node.hidden, Node.origin, Origin.hidden, hname]
  cases depth with
  | zero => nomatch h
  | succ d =>
    rw [run, answer, hnode] at h
    simp only [if_pos hhidden] at h
    rw [Node.eval] at h
    obtain ⟨⟨n, t'⟩, hn, h⟩ := Run.bind_eq_done_iff.1 h
    refine ⟨d, node.label, _, n, t', node.origin, rfl, alike_emit .., hn, hhidden, ?_⟩
    obtain ⟨rfl, rfl⟩ := Prod.mk.inj (Run.done.inj h)
    refine ⟨rfl, ?_⟩
    split
    · exact alike_emit ..
    · exact alike_emit ..

/-- The body of `rule` is being tried at `position`, where `entry` stands for the rule. -/
structure Trial (g : Grammar) (rule : NodeId) (position : Nat) (entry : Match) (s : Session) : Prop where
  sound : s.Sound g (Pending.none.add position rule)
  cursor_eq : s.cursor = position
  entry_eq : s.memo.get? position rule = some entry

variable {position : Nat} {entry : Match} {tail bases recs : List NodeId} {tails : List (List NodeId)}

theorem Trial.alike (hs : g.Trial rule position entry s) (h : t.Alike s) : g.Trial rule position entry t :=
  ⟨hs.sound.alike h, h.cursor_eq.trans hs.cursor_eq, h.memo_eq ▸ hs.entry_eq⟩

theorem Trial.placed (hs : g.Trial rule position entry s) : entry.Placed s.input s.cursor (g.Nullable rule) :=
  hs.cursor_eq ▸ hs.sound.placed hs.entry_eq

theorem Trial.remembered (hs : g.Trial rule position entry s) : s.remembered? rule = some entry := by
  rw [remembered?, hs.cursor_eq, hs.entry_eq]

theorem shareOn_insert {position : Nat} (hinput : t.input = s.input)
    (hmemo : t.memo = s.memo.insert position rule m) : t.ShareOn (g.Apart rule) s where
  input_eq := hinput
  positions_eq := by rw [hmemo, MemoTable.positions_insert]
  get?_eq q hr := by rw [hmemo, MemoTable.get?_insert_of_ne fun h => hr.ne h.2]

/-- While the rule stands as a failure, its recursive alternatives fail, and mark the failure. -/
theorem Trial.alternative_fails (hg : g.WellFormed) (hvisible : g.isVisible rule = true)
    (halt : g.HasPattern id (.sequence (rule :: tail))) (hs : g.Trial rule position entry s)
    (hfail : entry.success = false) (hstatus : entry.status ≠ .impossible)
    (h : g.run depth id s = .done (m, t)) :
    m.success = false ∧ g.Trial rule position (entry.withStatus .detected) t ∧
      t.ShareOn (g.Apart rule) s := by
  have hanswered := (answered_of_run hg hs.sound h).2
  obtain ⟨d, label, s', n, t', origin, rfl, hs', hn, _, rfl, ht⟩ := run_pattern hg halt (by simp [Pattern.kind]) h
  have htrial := hs.alike hs'
  rw [eval, matchItems] at hn
  obtain ⟨⟨child, u⟩, hchild, hn⟩ := Run.bind_eq_done_iff.1 hn
  cases d with
  | zero => cases hchild
  | succ d =>
    obtain ⟨v, hv, hinput, hcursor, hmemo⟩ := run_of_remembered d hvisible htrial.remembered htrial.placed
    obtain ⟨rfl, rfl⟩ := Prod.mk.inj (Run.done.inj (hv.symm.trans hchild))
    have hchildfail : (if entry.status = .possible then entry.withStatus .detected else entry).success = false := by
      split
      · exact hfail
      · exact hfail
    dsimp only at hn
    rw [hchildfail, if_neg Bool.false_ne_true] at hn
    obtain ⟨w, hw, hn⟩ := Run.bind_eq_done_iff.1 hn
    obtain ⟨_, rfl⟩ := moveToR_eq_done_iff.1 hw
    obtain ⟨rfl, rfl⟩ := Prod.mk.inj (Run.done.inj hn)
    have htinput : t.input = s.input := ht.input_eq.trans (hinput.trans hs'.input_eq)
    have htcursor : t.cursor = position := ht.cursor_eq.trans htrial.cursor_eq
    refine ⟨rfl, ⟨hanswered.within.sound, htcursor, ?_⟩, ?_⟩
    · rw [ht.memo_eq, memo_seek, hmemo]
      cases hentry : entry.status with
      | possible =>
        rw [if_pos rfl, htrial.cursor_eq]
        exact MemoTable.get?_insert_self (MemoTable.lt_positions_of_get? htrial.entry_eq)
      | detected =>
        rw [if_neg (by simp), htrial.entry_eq, Match.withStatus_eq_self hentry]
      | impossible => exact absurd hentry hstatus
    · have htmemo : t.memo = v.memo := ht.memo_eq
      by_cases hpossible : entry.status = .possible
      · rw [if_pos hpossible] at hmemo
        exact shareOn_insert htinput (by rw [htmemo, hmemo, hs'.memo_eq])
      · rw [if_neg hpossible] at hmemo
        exact (ShareOn.refl _ s).of_eq htinput (by rw [htmemo, hmemo, hs'.memo_eq]) rfl rfl

theorem Trial.seek (hs : g.Trial rule position entry s) (hle : position ≤ s.length) :
    g.Trial rule position entry (s.seek position) :=
  ⟨hs.sound.seek hle, rfl, hs.entry_eq⟩

/-- All recursive alternatives fail, one after the other, and the base alternatives are left. -/
theorem Trial.alternatives_fail (hg : g.WellFormed) (hvisible : g.isVisible rule = true)
    (hrecs : List.Forall₂ (fun id tail => g.HasPattern id (.sequence (rule :: tail))) recs tails)
    (hs : g.Trial rule position entry s) (hfail : entry.success = false) (hstatus : entry.status ≠ .impossible)
    (h : matchAlternatives (g.run depth) position (recs ++ bases) s = .done (m, t)) :
    ∃ u marked, matchAlternatives (g.run depth) position bases u = .done (m, t) ∧
      g.Trial rule position marked u ∧ (recs = [] ∧ marked = entry ∨ marked = entry.withStatus .detected) ∧
      u.ShareOn (g.Apart rule) s := by
  induction hrecs generalizing s entry with
  | nil => exact ⟨s, entry, h, hs, .inl ⟨rfl, rfl⟩, .refl _ s⟩
  | @cons id tail recs tails halt _ ih =>
    rw [List.cons_append, matchAlternatives] at h
    obtain ⟨⟨child, u⟩, hchild, h⟩ := Run.bind_eq_done_iff.1 h
    obtain ⟨hcfail, hu, hshare⟩ := hs.alternative_fails hg hvisible halt hfail hstatus hchild
    dsimp only at h
    rw [hcfail, if_neg Bool.false_ne_true] at h
    obtain ⟨v, hv, h⟩ := Run.bind_eq_done_iff.1 h
    obtain ⟨hle, rfl⟩ := moveToR_eq_done_iff.1 hv
    obtain ⟨w, marked, hw, hmarked, hwhich, hshare'⟩ :=
      ih (hu.seek hle) hfail (by simp) h
    refine ⟨w, marked, hw, hmarked, .inr ?_, hshare'.trans (hshare.of_eq rfl rfl rfl rfl)⟩
    rcases hwhich with ⟨_, rfl⟩ | rfl
    · rfl
    · rfl

/-- Once the rule stands as a success, a recursive alternative matches what stands behind the rule, from
the end of that success. The other side matches the same from there. -/
theorem Trial.alternative_grows (hg : g.WellFormed) (hvisible : g.isVisible rule = true) {other : NodeId}
    (halt : g.HasPattern id (.sequence (rule :: tail))) (hother : g.HasPattern other (.sequence tail))
    (hapart : ∀ x ∈ tail, g.Apart rule x) (hs : g.Trial rule position entry s)
    (hsuccess : entry.success = true) (hstatus : entry.status = .detected) {s₂ t₂ : Session} {m₂ : Match}
    (hcursor₂ : s₂.cursor = entry.stop) (hshare : s.ShareOn (g.Apart rule) s₂)
    (h : g.run depth id s = .done (m, t)) (h₂ : g.run depth' other s₂ = .done (m₂, t₂)) :
    t.ShareOn (g.Apart rule) t₂ ∧ t.memo.get? position rule = some entry ∧ m.success = m₂.success ∧
      (m.success = true → m.stop = m₂.stop ∧ m.children = entry :: m₂.children) := by
  have hkept : t.memo.get? position rule = some entry :=
    (g.run_keepsMemo depth id s m t h).get? hs.entry_eq (by simp [hstatus])
  obtain ⟨d, label, s', n, t', origin, rfl, hs', hn, _, rfl, ht⟩ := run_pattern hg halt (by simp [Pattern.kind]) h
  obtain ⟨d₂, label₂, s₂', n₂, t₂', origin₂, rfl, hs₂', hn₂, _, rfl, ht₂⟩ :=
    run_pattern hg hother (by simp [Pattern.kind]) h₂
  have htrial := hs.alike hs'
  rw [eval, matchItems] at hn
  rw [eval] at hn₂
  obtain ⟨⟨child, u⟩, hchild, hn⟩ := Run.bind_eq_done_iff.1 hn
  cases d with
  | zero => cases hchild
  | succ d =>
    obtain ⟨v, hv, hinput, hcursor, hmemo⟩ := run_of_remembered d hvisible htrial.remembered htrial.placed
    rw [if_neg (by simp [hstatus])] at hv hmemo
    obtain ⟨rfl, rfl⟩ := Prod.mk.inj (Run.done.inj (hv.symm.trans hchild))
    dsimp only at hn
    rw [hsuccess, if_pos rfl] at hn
    have hagree : v.AgreeOn (g.Apart rule) s₂' := {
      toShareOn := hshare.of_eq (hinput.trans hs'.input_eq) (hmemo.trans hs'.memo_eq) hs₂'.input_eq hs₂'.memo_eq
      cursor_eq := by rw [hcursor, hs₂'.cursor_eq, hcursor₂] }
    have hstop : ((Match.empty s'.cursor).push entry).stop = (Match.empty s₂'.cursor).stop := by
      rw [Match.stop_push, Match.stop_empty, hs₂'.cursor_eq, hcursor₂]
    obtain ⟨hshare', hsame, hrest⟩ := matchItems_agrees (fun x hx => run_agrees_of_apart (hapart x hx)) hagree
      rfl rfl hstop hn hn₂
    refine ⟨hshare'.of_eq ht.input_eq ht.memo_eq ht₂.input_eq ht₂.memo_eq, hkept, hsame, fun hm => ?_⟩
    obtain ⟨hstops, children, hm₁, hm₂⟩ := hrest hm
    refine ⟨hstops, ?_⟩
    simpa [Match.stamp, hm₂] using hm₁

/-- All recursive alternatives against all that stands behind them: both sides choose the same one, or none,
and then the base alternatives are left. -/
theorem Trial.alternatives_grow (hg : g.WellFormed) (hvisible : g.isVisible rule = true) {others : List NodeId}
    (hrecs : List.Forall₂ (fun id tail => g.HasPattern id (.sequence (rule :: tail))) recs tails)
    (hothers : List.Forall₂ (fun id tail => g.HasPattern id (.sequence tail)) others tails)
    (hapart : ∀ tail ∈ tails, ∀ x ∈ tail, g.Apart rule x) (hs : g.Trial rule position entry s)
    (hsuccess : entry.success = true) (hstatus : entry.status = .detected) {s₂ t₂ : Session} {m₂ : Match}
    (hcursor₂ : s₂.cursor = entry.stop) (hshare : s.ShareOn (g.Apart rule) s₂)
    (h : matchAlternatives (g.run depth) position (recs ++ bases) s = .done (m, t))
    (h₂ : matchAlternatives (g.run depth') entry.stop others s₂ = .done (m₂, t₂)) :
    (m₂.success = true ∧ m.success = true ∧ m.stop = m₂.stop ∧ t.ShareOn (g.Apart rule) t₂ ∧
        t.memo.get? position rule = some entry ∧
        ∃ alternative other, m.children = [alternative] ∧ m₂.children = [other] ∧
          alternative.children = entry :: other.children) ∨
      (m₂.success = false ∧ ∃ u, matchAlternatives (g.run depth) position bases u = .done (m, t) ∧
        g.Trial rule position entry u ∧ s.memo.Kept u.memo ∧ u.input = s.input) := by
  induction hrecs generalizing others s s₂ with
  | nil =>
    cases hothers
    obtain ⟨rfl, rfl⟩ := Prod.mk.inj (Run.done.inj h₂)
    exact .inr ⟨rfl, s, h, hs, .refl _, rfl⟩
  | @cons id tail recs tails halt _ ih =>
    obtain ⟨other, rest, hother, hrest, rfl⟩ := List.forall₂_cons_right_iff.1 hothers
    rw [List.cons_append, matchAlternatives] at h
    rw [matchAlternatives] at h₂
    obtain ⟨⟨child, u⟩, hchild, h⟩ := Run.bind_eq_done_iff.1 h
    obtain ⟨⟨child₂, u₂⟩, hchild₂, h₂⟩ := Run.bind_eq_done_iff.1 h₂
    obtain ⟨hshare', hkept, hsame, hchildren⟩ := hs.alternative_grows hg hvisible halt hother
      (hapart tail (by simp)) hsuccess hstatus hcursor₂ hshare hchild hchild₂
    dsimp only at h h₂
    cases hcs : child.success with
    | true =>
      rw [hcs, if_pos rfl] at h
      rw [← hsame, hcs, if_pos rfl] at h₂
      obtain ⟨rfl, rfl⟩ := Prod.mk.inj (Run.done.inj h)
      obtain ⟨rfl, rfl⟩ := Prod.mk.inj (Run.done.inj h₂)
      obtain ⟨hstop, hcc⟩ := hchildren hcs
      exact .inl ⟨rfl, rfl, hstop, hshare', hkept, child, child₂, rfl, rfl, hcc⟩
    | false =>
      rw [hcs, if_neg Bool.false_ne_true] at h
      rw [← hsame, hcs, if_neg Bool.false_ne_true] at h₂
      obtain ⟨v, hv, h⟩ := Run.bind_eq_done_iff.1 h
      obtain ⟨v₂, hv₂, h₂⟩ := Run.bind_eq_done_iff.1 h₂
      obtain ⟨hle, rfl⟩ := moveToR_eq_done_iff.1 hv
      obtain ⟨_, rfl⟩ := moveToR_eq_done_iff.1 hv₂
      have hwithin := (answered_of_run hg hs.sound hchild).2.within
      have htrial : g.Trial rule position entry (u.seek position) := ⟨hwithin.sound.seek hle, rfl, hkept⟩
      have hcursor' : (u₂.seek entry.stop).cursor = entry.stop := rfl
      have hshare'' : (u.seek position).ShareOn (g.Apart rule) (u₂.seek entry.stop) :=
        hshare'.of_eq rfl rfl rfl rfl
      refine (ih hrest (fun tail ht => hapart tail (by simp [ht])) htrial hcursor' hshare'' h h₂).imp_right ?_
      rintro ⟨hfail, w, hw, hwtrial, hwkept, hwinput⟩
      exact ⟨hfail, w, hw, hwtrial, hwithin.kept.trans hwkept, hwinput.trans hwithin.input_eq⟩

end Grammar

end Packrat
