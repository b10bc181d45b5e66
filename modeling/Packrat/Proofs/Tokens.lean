import Packrat.Proofs.Reading

/-!
# Reading tokens

A definition is read from left to right, with a layer for every bracket that is open. What binds most tightly is the
suffix of a repetition, which goes to the operand right before it. Then come the signs of lookaheads, which go to the
operand behind them together with its suffixes. Operands that follow each other make a sequence, and a slash between
sequences makes a choice.

`Expr.groups` says what is read of the tokens of an expression, whether or not this is what the expression means.
-/

namespace Packrat

inductive Token where
  /-- A literal, a class or a rule. -/
  | atom (r : Reading)
  | opening
  | closing
  | slash
  /-- The sign of a lookahead. -/
  | sign (expected : Bool)
  /-- The suffix of a repetition. -/
  | suffix (min : Nat) (max? : Option Nat)

namespace Reading

/-- What stands between two brackets: its alternatives, each of which is given by its items. -/
def ofGroups (groups : List (List Reading)) : Reading := .choice (groups.map .sequence)

/-- A reading behind the signs of lookaheads, of which the last is the innermost. -/
def signed (signs : List Bool) (r : Reading) : Reading := signs.foldr (fun expected r => .predicate r expected) r

end Reading

/-- What has been read since a bracket was opened. -/
structure Layer where
  /-- The alternatives before the last slash. -/
  alternatives : List (List Reading) := []
  /-- The items behind it. -/
  items : List Reading := []
  /-- The signs that wait for an operand. -/
  signs : List Bool := []
  /-- An operand that may still be followed by suffixes. -/
  operand? : Option Reading := none

namespace Layer

def settled (l : Layer) : Layer :=
  match l.operand? with
  | none => l
  | some r => { l with items := l.items ++ [r.signed l.signs], signs := [], operand? := none }

def operand (l : Layer) (r : Reading) : Layer := { l.settled with operand? := some r }

def sign (l : Layer) (expected : Bool) : Layer := { l.settled with signs := l.settled.signs ++ [expected] }

def suffix? (l : Layer) (min : Nat) (max? : Option Nat) : Option Layer :=
  l.operand?.map fun r => { l with operand? := some (.repetition r min max?) }

def next (l : Layer) : Layer := { alternatives := l.alternatives ++ [l.items] }

/-- An alternative may end: it has an item, and no sign is left over. -/
def next? (l : Layer) : Option Layer :=
  if l.settled.items.isEmpty || !l.settled.signs.isEmpty then none else some l.settled.next

def close? (l : Layer) : Option Reading := l.next?.map fun l => .ofGroups l.alternatives

end Layer

/-- Reads the rest of a definition, with a layer for the innermost bracket and one for each bracket around it. -/
def Reading.read? : List Token → Layer → List Layer → Option Reading
  | [], l, [] => l.close?
  | [], _, _ :: _ => none
  | .atom r :: rest, l, outer => read? rest (l.operand r) outer
  | .opening :: rest, l, outer => read? rest {} (l.settled :: outer)
  | .closing :: _, _, [] => none
  | .closing :: rest, l, l' :: outer => l.close?.bind fun r => read? rest (l'.operand r) outer
  | .slash :: rest, l, outer => l.next?.bind fun l => read? rest l outer
  | .sign expected :: rest, l, outer => read? rest (l.sign expected) outer
  | .suffix min max? :: rest, l, outer => (l.suffix? min max?).bind fun l => read? rest l outer

def Reading.ofTokens? (tokens : List Token) : Option Reading := read? tokens {} []

/-! ## Layers -/

namespace Layer

variable {l : Layer} {r : Reading} {g h : List Reading} {gs hs : List (List Reading)}

@[simp] theorem operand?_settled (l : Layer) : l.settled.operand? = none := by
  cases h : l.operand? <;> simp [settled, h]

theorem settled_of_none (h : l.operand? = none) : l.settled = l := by
  simp [settled, h]

@[simp] theorem settled_settled (l : Layer) : l.settled.settled = l.settled := settled_of_none (operand?_settled l)

/-- Puts items behind those of the layer; its signs go to the first of them. -/
def add (l : Layer) : List Reading → Layer
  | [] => l
  | r :: rest => { l with items := l.items ++ r.signed l.signs :: rest, signs := [] }

/-- Puts items behind those of the layer, with a slash between one group of them and the next. -/
def put (l : Layer) : List (List Reading) → Layer
  | [] => l
  | [g] => l.add g
  | g :: g' :: rest => ((l.add g).next).put (g' :: rest)

theorem add_append (l : Layer) (g h : List Reading) : l.add (g ++ h) = (l.add g).add h := by
  cases g with
  | nil => rfl
  | cons r rest => cases h <;> simp [add, Reading.signed]

theorem operand?_add (h : l.operand? = none) (g : List Reading) : (l.add g).operand? = none := by
  cases g <;> exact h

theorem operand?_put (h : l.operand? = none) (gs : List (List Reading)) : (l.put gs).operand? = none := by
  induction gs generalizing l with
  | nil => exact h
  | cons g rest ih =>
    cases rest with
    | nil => exact operand?_add h g
    | cons g' rest => exact ih rfl

theorem put_cons (hne : gs ≠ []) (l : Layer) (g : List Reading) : l.put (g :: gs) = ((l.add g).next).put gs := by
  cases gs with
  | nil => exact absurd rfl hne
  | cons g' rest => rfl

theorem settled_operand (l : Layer) (r : Reading) : (l.operand r).settled = l.settled.put [[r]] := by
  rw [put, add, operand, settled]
  simp

theorem suffix?_operand (l : Layer) (r : Reading) (min : Nat) (max? : Option Nat) :
    (l.operand r).suffix? min max? = some (l.operand (.repetition r min max?)) := rfl

end Layer

def Filled (gs : List (List Reading)) : Prop := gs ≠ [] ∧ ∀ g ∈ gs, g ≠ []

namespace Layer

variable {l : Layer} {gs hs : List (List Reading)}

theorem items_put (hgs : Filled gs) (l : Layer) : (l.put gs).items ≠ [] ∧ (l.put gs).signs = [] := by
  obtain ⟨hne, hall⟩ := hgs
  induction gs generalizing l with
  | nil => exact absurd rfl hne
  | cons g rest ih =>
    cases rest with
    | nil =>
      cases g with
      | nil => exact absurd rfl (hall [] List.mem_cons_self)
      | cons r items => simp [put, add]
    | cons g' rest =>
      apply ih
      · simp
      · intro h hh
        exact hall h (List.mem_cons_of_mem _ hh)

theorem next?_put (hf : l.operand? = none) (hgs : Filled gs) : (l.put gs).next? = some (l.put gs).next := by
  obtain ⟨hitems, hsigns⟩ := items_put hgs l
  simp [next?, settled_of_none (operand?_put hf gs), hitems, hsigns]

theorem alternatives_next_put (hne : gs ≠ []) (hitems : l.items = []) (hsigns : l.signs = []) :
    (l.put gs).next.alternatives = l.alternatives ++ gs := by
  induction gs generalizing l with
  | nil => exact absurd rfl hne
  | cons g rest ih =>
    have hadd : (l.add g).next = { alternatives := l.alternatives ++ [g] } := by
      cases g <;> simp [add, next, hitems, hsigns, Reading.signed]
    cases rest with
    | nil => rw [put, hadd]
    | cons g' rest =>
      rw [put, hadd, ih (List.cons_ne_nil _ _) rfl rfl, List.append_assoc, List.singleton_append]

/-- A bracket that has been opened and filled is closed with what it was filled with. -/
theorem close?_put (hgs : Filled gs) : (({} : Layer).put gs).close? = some (.ofGroups gs) := by
  rw [close?, next?_put rfl hgs, Option.map_some, alternatives_next_put hgs.1 rfl rfl]
  rfl

end Layer

/-- The last group of the first list and the first group of the second make one group. -/
def juxtapose : List (List Reading) → List (List Reading) → List (List Reading)
  | [], hs => hs
  | [g], [] => [g]
  | [g], h :: hs => (g ++ h) :: hs
  | g :: g' :: gs, hs => g :: juxtapose (g' :: gs) hs

def signFirst (expected : Bool) : List (List Reading) → List (List Reading)
  | (r :: g) :: gs => (.predicate r expected :: g) :: gs
  | gs => gs

section

variable {gs hs : List (List Reading)}

theorem filled_singleton (r : Reading) : Filled [[r]] := by simp [Filled]

theorem juxtapose_ne_nil (hgs : gs ≠ []) : juxtapose gs hs ≠ [] := by
  match gs, hs, hgs with
  | [g], [], _ => simp [juxtapose]
  | [g], h :: hs, _ => simp [juxtapose]
  | g :: g' :: gs, hs, _ => simp [juxtapose]

theorem Filled.juxtapose (hgs : Filled gs) (hhs : ∀ h ∈ hs.tail, h ≠ []) : Filled (juxtapose gs hs) := by
  refine ⟨juxtapose_ne_nil hgs.1, ?_⟩
  obtain ⟨hne, hall⟩ := hgs
  induction gs with
  | nil => exact absurd rfl hne
  | cons g rest ih =>
    cases rest with
    | nil =>
      cases hs with
      | nil => exact hall
      | cons h hs =>
        intro x hx
        rcases List.mem_cons.1 hx with rfl | hx
        · simp [hall g List.mem_cons_self]
        · exact hhs x hx
    | cons g' rest =>
      intro x hx
      rcases List.mem_cons.1 hx with rfl | hx
      · exact hall x List.mem_cons_self
      · refine ih (List.cons_ne_nil _ _) ?_ x hx
        intro y hy
        exact hall y (List.mem_cons_of_mem _ hy)

theorem Filled.signFirst (hgs : Filled gs) (expected : Bool) : Filled (signFirst expected gs) := by
  obtain ⟨hne, hall⟩ := hgs
  match gs, hne with
  | [] :: gs, _ => exact absurd rfl (hall [] List.mem_cons_self)
  | (r :: g) :: gs, _ =>
    refine ⟨by simp [Packrat.signFirst], ?_⟩
    intro x hx
    rcases List.mem_cons.1 hx with rfl | hx
    · simp
    · exact hall x (List.mem_cons_of_mem _ hx)

theorem Layer.put_juxtapose (hgs : gs ≠ []) (hhs : hs ≠ []) (l : Layer) :
    l.put (juxtapose gs hs) = (l.put gs).put hs := by
  induction gs generalizing l with
  | nil => exact absurd rfl hgs
  | cons g rest ih =>
    cases rest with
    | nil =>
      match hs, hhs with
      | [h], _ => simp [juxtapose, Layer.put, Layer.add_append]
      | h :: h' :: hs, _ => simp [juxtapose, Layer.put, Layer.add_append]
    | cons g' rest =>
      rw [juxtapose, Layer.put_cons (juxtapose_ne_nil (List.cons_ne_nil _ _)), ih (List.cons_ne_nil _ _), Layer.put]

theorem Layer.put_sign (hgs : Filled gs) (l : Layer) (expected : Bool) :
    (l.sign expected).put gs = l.settled.put (signFirst expected gs) := by
  obtain ⟨hne, hall⟩ := hgs
  have hadd : ∀ r g, (l.sign expected).add (r :: g) = l.settled.add (.predicate r expected :: g) := by
    intro r g
    simp [Layer.sign, Layer.add, Reading.signed]
  cases gs with
  | nil => exact absurd rfl hne
  | cons g rest =>
    cases g with
    | nil => exact absurd rfl (hall [] List.mem_cons_self)
    | cons r items =>
      cases rest with
      | nil => exact hadd r items
      | cons g' rest => rw [Layer.put, hadd, Packrat.signFirst, Layer.put]

end

/-! ## Expressions -/

namespace Expr

mutual

def tokens : Expr → List Token
  | .literal text => [.atom (.literal text)]
  | .charClass cls => [.atom (.charClass cls.definition)]
  | .rule name => [.atom (.rule name)]
  | .missing id => [.atom (.charClass ("<" ++ NodeId.text id ++ ">"))]
  | .sequence items => itemTokens items
  | .choice alternatives => alternativeTokens alternatives
  | .repetition body min max? => .opening :: (body.tokens ++ [.closing, .suffix min max?])
  | .predicate body expected =>
    .sign expected :: if body.needsBrackets then .opening :: (body.tokens ++ [.closing]) else body.tokens

def itemTokens : List Expr → List Token
  | [] => []
  | e :: rest => e.tokens ++ itemTokens rest

def alternativeTokens : List Expr → List Token
  | [] => []
  | [e] => .opening :: (e.tokens ++ [.closing])
  | e :: e' :: rest => .opening :: (e.tokens ++ .closing :: .slash :: alternativeTokens (e' :: rest))

end

mutual

/-- What is read of the tokens of an expression: groups of items, with a slash between one and the next. -/
def groups : Expr → List (List Reading)
  | .literal text => [[.literal text]]
  | .charClass cls => [[.charClass cls.definition]]
  | .rule name => [[.rule name]]
  | .missing id => [[.charClass ("<" ++ NodeId.text id ++ ">")]]
  | .sequence items => itemGroups items
  | .choice alternatives => alternativeGroups alternatives
  | .repetition body min max? => [[.repetition (.ofGroups body.groups) min max?]]
  | .predicate body expected =>
    if body.needsBrackets then [[.predicate (.ofGroups body.groups) expected]] else signFirst expected body.groups

def itemGroups : List Expr → List (List Reading)
  | [] => [[]]
  | e :: rest => juxtapose e.groups (itemGroups rest)

def alternativeGroups : List Expr → List (List Reading)
  | [] => []
  | e :: rest => [.ofGroups e.groups] :: alternativeGroups rest

end

mutual

/-- No sequence and no choice in it is empty. -/
def Solid : Expr → Prop
  | .literal _ | .charClass _ | .rule _ | .missing _ => True
  | .sequence items => items ≠ [] ∧ SolidAll items
  | .choice alternatives => alternatives ≠ [] ∧ SolidAll alternatives
  | .repetition body _ _ => body.Solid
  | .predicate body _ => body.Solid

def SolidAll : List Expr → Prop
  | [] => True
  | e :: rest => e.Solid ∧ SolidAll rest

end

mutual

theorem filled_groups : (e : Expr) → e.Solid → Filled e.groups
  | .literal _, _ | .charClass _, _ | .rule _, _ | .missing _, _ | .repetition _ _ _, _ => filled_singleton _
  | .sequence [], h => absurd rfl h.1
  | .sequence (e :: rest), h => (filled_groups e h.2.1).juxtapose (filled_tail_itemGroups rest h.2.2)
  | .choice [], h => absurd rfl h.1
  | .choice (e :: rest), h => ⟨List.cons_ne_nil _ _, ne_nil_of_mem_alternativeGroups (e :: rest)⟩
  | .predicate body expected, h => by
    rw [groups]
    split
    · exact filled_singleton _
    · exact (filled_groups body h).signFirst expected

/-- Only the first group of no items at all is empty. -/
theorem filled_tail_itemGroups : (es : List Expr) → SolidAll es → ∀ g ∈ (itemGroups es).tail, g ≠ []
  | [], _, g, hg => by simp [itemGroups] at hg
  | e :: rest, h, g, hg =>
    ((filled_groups e h.1).juxtapose (filled_tail_itemGroups rest h.2)).2 g (List.mem_of_mem_tail hg)

theorem ne_nil_of_mem_alternativeGroups : (es : List Expr) → ∀ g ∈ alternativeGroups es, g ≠ []
  | [], g, hg => by simp [alternativeGroups] at hg
  | e :: rest, g, hg => by
    rcases List.mem_cons.1 hg with rfl | hg
    · simp
    · exact ne_nil_of_mem_alternativeGroups rest g hg

end

theorem itemGroups_ne_nil (es : List Expr) (h : SolidAll es) : itemGroups es ≠ [] := by
  cases es with
  | nil => simp [itemGroups]
  | cons e rest => exact juxtapose_ne_nil (filled_groups e h.1).1

end Expr

/-! ## What is read -/

/-- The tokens do not begin with a suffix, so that an operand before them is complete. -/
def NoSuffix : List Token → Prop
  | .suffix _ _ :: _ => False
  | _ => True

namespace Reading

variable {rest : List Token} {l : Layer} {outer : List Layer} {e : Expr}

theorem read?_settled (hrest : NoSuffix rest) (l : Layer) (outer : List Layer) :
    read? rest l outer = read? rest l.settled outer := by
  cases rest with
  | nil => cases outer <;> simp [read?, Layer.close?, Layer.next?]
  | cons token rest =>
    cases token with
    | atom r => simp [read?, Layer.operand]
    | opening => simp [read?]
    | closing => cases outer <;> simp [read?, Layer.close?, Layer.next?]
    | slash => simp [read?, Layer.next?]
    | sign expected => simp [read?, Layer.sign]
    | suffix min max? => exact hrest.elim

theorem read?_operand (hrest : NoSuffix rest) (l : Layer) (r : Reading) (outer : List Layer) :
    read? rest (l.operand r) outer = read? rest (l.settled.put [[r]]) outer := by
  rw [read?_settled hrest, Layer.settled_operand]

mutual

theorem noSuffix_tokens : ∀ (e : Expr) (rest : List Token), NoSuffix rest → NoSuffix (e.tokens ++ rest)
  | .literal _, _, _ | .charClass _, _, _ | .rule _, _, _ | .missing _, _, _ | .repetition _ _ _, _, _
  | .predicate _ _, _, _ => trivial
  | .sequence items, rest, h => noSuffix_itemTokens items rest h
  | .choice [], _, h => h
  | .choice [_], _, _ | .choice (_ :: _ :: _), _, _ => trivial

theorem noSuffix_itemTokens : ∀ (es : List Expr) (rest : List Token), NoSuffix rest →
    NoSuffix (Expr.itemTokens es ++ rest)
  | [], _, h => h
  | e :: es, rest, h => by
    rw [Expr.itemTokens, List.append_assoc]
    exact noSuffix_tokens e _ (noSuffix_itemTokens es rest h)

end

def ReadsGroups (e : Expr) : Prop := ∀ (rest : List Token) (l : Layer) (outer : List Layer), NoSuffix rest →
  read? (e.tokens ++ rest) l outer = read? rest (l.settled.put e.groups) outer

/-- Between brackets an expression is an operand. -/
theorem ReadsGroups.read?_brackets (h : ReadsGroups e) (hsolid : e.Solid) (rest : List Token) (l : Layer)
    (outer : List Layer) :
    read? (.opening :: (e.tokens ++ .closing :: rest)) l outer = read? rest (l.operand (.ofGroups e.groups)) outer := by
  have hbody : read? (e.tokens ++ .closing :: rest) {} (l.settled :: outer) =
      read? (.closing :: rest) (({} : Layer).put e.groups) (l.settled :: outer) := h _ _ _ trivial
  rw [read?, hbody, read?, Layer.close?_put (Expr.filled_groups e hsolid), Option.bind_some]
  simp [Layer.operand]

mutual

theorem readsGroups : (e : Expr) → e.Solid → ReadsGroups e
  | .literal _, _, rest, l, outer, hrest => read?_operand hrest l _ outer
  | .charClass _, _, rest, l, outer, hrest => read?_operand hrest l _ outer
  | .rule _, _, rest, l, outer, hrest => read?_operand hrest l _ outer
  | .missing _, _, rest, l, outer, hrest => read?_operand hrest l _ outer
  | .sequence items, h, rest, l, outer, hrest => by
    rw [Expr.tokens, Expr.groups, read?_itemTokens items h.2 rest l outer hrest]
  | .choice alternatives, h, rest, l, outer, hrest => by
    rw [Expr.tokens, Expr.groups, read?_alternativeTokens alternatives h.1 h.2 rest l outer hrest]
  | .repetition body min max?, h, rest, l, outer, hrest => by
    have hbody := (readsGroups body h).read?_brackets h (.suffix min max? :: rest) l outer
    have htokens : Expr.tokens (.repetition body min max?) ++ rest =
        .opening :: (body.tokens ++ .closing :: .suffix min max? :: rest) := by
      simp [Expr.tokens]
    rw [htokens, hbody, read?, Layer.suffix?_operand, Option.bind_some, read?_operand hrest, Expr.groups]
  | .predicate body expected, h, rest, l, outer, hrest => by
    rw [Expr.tokens, Expr.groups, List.cons_append, read?]
    split
    · rw [List.cons_append, List.append_assoc, List.singleton_append, (readsGroups body h).read?_brackets h,
        read?_operand hrest]
      have hsign := Layer.put_sign (filled_singleton (.ofGroups body.groups)) l expected
      rw [Layer.settled_of_none (l := l.sign expected) (Layer.operand?_settled l), hsign]
      rfl
    · rw [readsGroups body h _ _ _ hrest, ← Layer.put_sign (Expr.filled_groups body h),
        Layer.settled_of_none (l := l.sign expected) (Layer.operand?_settled l)]

/-- Items are read one after the other. -/
theorem read?_itemTokens : ∀ (es : List Expr), Expr.SolidAll es → ∀ (rest : List Token) (l : Layer)
    (outer : List Layer), NoSuffix rest →
      read? (Expr.itemTokens es ++ rest) l outer = read? rest (l.settled.put (Expr.itemGroups es)) outer
  | [], _, rest, l, outer, hrest => read?_settled hrest l outer
  | e :: es, h, rest, l, outer, hrest => by
    have hput := Layer.operand?_put (Layer.operand?_settled l) e.groups
    rw [Expr.itemTokens, Expr.itemGroups, List.append_assoc, readsGroups e h.1 _ _ _ (noSuffix_itemTokens es rest hrest),
      read?_itemTokens es h.2 rest _ outer hrest, Layer.settled_of_none hput,
      Layer.put_juxtapose (Expr.filled_groups e h.1).1 (Expr.itemGroups_ne_nil es h.2)]

/-- Every alternative is an operand. -/
theorem read?_alternativeTokens : ∀ (es : List Expr), es ≠ [] → Expr.SolidAll es → ∀ (rest : List Token) (l : Layer)
    (outer : List Layer), NoSuffix rest →
      read? (Expr.alternativeTokens es ++ rest) l outer = read? rest (l.settled.put (Expr.alternativeGroups es)) outer
  | [], hne, _, _, _, _, _ => absurd rfl hne
  | [e], _, h, rest, l, outer, hrest => by
    rw [Expr.alternativeTokens, List.cons_append, List.append_assoc, List.singleton_append,
      (readsGroups e h.1).read?_brackets h.1, read?_operand hrest]
    rfl
  | e :: e' :: es, _, h, rest, l, outer, hrest => by
    have hnext : (l.operand (.ofGroups e.groups)).next? =
        some (l.settled.put [[.ofGroups e.groups]]).next := by
      rw [← Layer.next?_put (Layer.operand?_settled l) (filled_singleton _), ← Layer.settled_operand]
      simp [Layer.next?]
    rw [Expr.alternativeTokens, List.cons_append, List.append_assoc, List.cons_append, List.cons_append,
      (readsGroups e h.1).read?_brackets h.1, read?, hnext, Option.bind_some,
      read?_alternativeTokens (e' :: es) (List.cons_ne_nil _ _) h.2 rest _ outer hrest]
    rfl

end

/-- The tokens of an expression are read as what its groups make. -/
theorem ofTokens?_tokens (h : e.Solid) : ofTokens? e.tokens = some (.ofGroups e.groups) := by
  have hread := readsGroups e h [] {} [] trivial
  rw [List.append_nil] at hread
  rw [ofTokens?, hread, read?, Layer.settled_of_none rfl, Layer.close?_put (Expr.filled_groups e h)]

end Reading

end Packrat
