import Packrat.Grammar.Basic

/-!
# Plain evaluation

What a grammar says of an input if nothing is remembered: every call of a node is evaluated anew. The evaluation is
given as a relation, so that it need not end. It says where a match stops, or that there is none, and at which
positions literals and character classes have failed on the way, other than inside lookaheads.
-/

namespace Packrat

/-- What may be evaluated at a position: a node, a pattern, or what is left of one. -/
inductive Goal where
  | node (id : NodeId)
  | pattern (pattern : Pattern)
  | items (items : List NodeId)
  | alternatives (alternatives : List NodeId)
  /-- The rounds of a repetition after `count` of them. -/
  | rounds (body : NodeId) (min : Nat) (max? : Option Nat) (count : Nat)

def AgreesFor (input : Array Char) (position : Nat) (text : String) (n : Nat) : Prop :=
  ∀ j < n, input[position + j]? = text.toList[j]?

structure DiffersAfter (input : Array Char) (position : Nat) (text : String) (n : Nat) : Prop where
  lt_length : n < text.length
  agrees : AgreesFor input position text n
  differs : input[position + n]? ≠ text.toList[n]?

def CharClass.AcceptsAt (cls : CharClass) (input : Array Char) (position : Nat) : Prop :=
  ∃ c, input[position]? = some c ∧ cls.accepts c = true

def MayGoOn (max? : Option Nat) (count : Nat) : Prop := ∀ max, max? = some max → count < max

/-- A goal at a position: where its match stops, if there is one, and the failures of literals and character classes
on the way, in their order and without those inside lookaheads. -/
inductive Grammar.Plain (g : Grammar) (input : Array Char) : Goal → Nat → Option Nat → List Nat → Prop
  | node {id : NodeId} {node : Node} {position : Nat} {stop? : Option Nat} {failures : List Nat}
      (hnode : g.node? id = some node) (h : Plain g input (.pattern node.pattern) position stop? failures) :
      Plain g input (.node id) position stop? failures
  | literal {text : String} {position : Nat} (h : AgreesFor input position text text.length) :
      Plain g input (.pattern (.literal text)) position (some (position + text.length)) []
  | literalFails {text : String} {position n : Nat} (h : DiffersAfter input position text n) :
      Plain g input (.pattern (.literal text)) position none [position + n]
  | charClass {cls : CharClass} {position : Nat} (h : cls.AcceptsAt input position) :
      Plain g input (.pattern (.charClass cls)) position (some (position + 1)) []
  | charClassFails {cls : CharClass} {position : Nat} (h : ¬ cls.AcceptsAt input position) :
      Plain g input (.pattern (.charClass cls)) position none [position]
  | sequence {items : List NodeId} {position : Nat} {stop? : Option Nat} {failures : List Nat}
      (h : Plain g input (.items items) position stop? failures) :
      Plain g input (.pattern (.sequence items)) position stop? failures
  | choice {alternatives : List NodeId} {position : Nat} {stop? : Option Nat} {failures : List Nat}
      (h : Plain g input (.alternatives alternatives) position stop? failures) :
      Plain g input (.pattern (.choice alternatives)) position stop? failures
  | repetition {body : NodeId} {min : Nat} {max? : Option Nat} {position : Nat} {stop? : Option Nat}
      {failures : List Nat} (h : Plain g input (.rounds body min max? 0) position stop? failures) :
      Plain g input (.pattern (.repetition body min max?)) position stop? failures
  /-- What fails inside a lookahead is not told. -/
  | predicate {body : NodeId} {expected : Bool} {position : Nat} {stop? : Option Nat} {failures : List Nat}
      (h : Plain g input (.node body) position stop? failures) :
      Plain g input (.pattern (.predicate body expected)) position
        (if stop?.isSome = expected then some position else none) []
  | rule {body : NodeId} {position : Nat} {stop? : Option Nat} {failures : List Nat}
      (h : Plain g input (.node body) position stop? failures) :
      Plain g input (.pattern (.rule body)) position stop? failures
  | itemsEnd {position : Nat} : Plain g input (.items []) position (some position) []
  | itemFails {item : NodeId} {rest : List NodeId} {position : Nat} {failures : List Nat}
      (h : Plain g input (.node item) position none failures) :
      Plain g input (.items (item :: rest)) position none failures
  | item {item : NodeId} {rest : List NodeId} {position next : Nat} {stop? : Option Nat} {failures failures' : List Nat}
      (h : Plain g input (.node item) position (some next) failures)
      (hrest : Plain g input (.items rest) next stop? failures') :
      Plain g input (.items (item :: rest)) position stop? (failures ++ failures')
  | alternativesEnd {position : Nat} : Plain g input (.alternatives []) position none []
  | alternative {alternative : NodeId} {rest : List NodeId} {position stop : Nat} {failures : List Nat}
      (h : Plain g input (.node alternative) position (some stop) failures) :
      Plain g input (.alternatives (alternative :: rest)) position (some stop) failures
  | alternativeFails {alternative : NodeId} {rest : List NodeId} {position : Nat} {stop? : Option Nat}
      {failures failures' : List Nat} (h : Plain g input (.node alternative) position none failures)
      (hrest : Plain g input (.alternatives rest) position stop? failures') :
      Plain g input (.alternatives (alternative :: rest)) position stop? (failures ++ failures')
  | roundsFull {body : NodeId} {min : Nat} {max? : Option Nat} {count position : Nat} (h : ¬ MayGoOn max? count) :
      Plain g input (.rounds body min max? count) position (if count < min then none else some position) []
  | roundFails {body : NodeId} {min : Nat} {max? : Option Nat} {count position : Nat} {failures : List Nat}
      (hmay : MayGoOn max? count) (h : Plain g input (.node body) position none failures) :
      Plain g input (.rounds body min max? count) position (if count < min then none else some position) failures
  | round {body : NodeId} {min : Nat} {max? : Option Nat} {count position next : Nat} {stop? : Option Nat}
      {failures failures' : List Nat} (hmay : MayGoOn max? count)
      (h : Plain g input (.node body) position (some next) failures) (hlt : position < next)
      (hrest : Plain g input (.rounds body min max? (count + 1)) next stop? failures') :
      Plain g input (.rounds body min max? count) position stop? (failures ++ failures')
  /-- A round without characters ends the repetition, and satisfies any minimum. -/
  | emptyRound {body : NodeId} {min : Nat} {max? : Option Nat} {count position stop : Nat} {failures : List Nat}
      (hmay : MayGoOn max? count) (h : Plain g input (.node body) position (some stop) failures)
      (hle : ¬ position < stop) : Plain g input (.rounds body min max? count) position (some stop) failures

variable {g : Grammar} {input : Array Char} {goal : Goal} {position n n' : Nat} {text : String}

theorem DiffersAfter.unique (h : DiffersAfter input position text n) (h' : DiffersAfter input position text n') :
    n = n' := by
  rcases Nat.lt_trichotomy n n' with hlt | heq | hlt
  · exact absurd (h'.agrees n hlt) h.differs
  · exact heq
  · exact absurd (h.agrees n' hlt) h'.differs

theorem DiffersAfter.not_agreesFor (h : DiffersAfter input position text n) :
    ¬ AgreesFor input position text text.length := fun hall => h.differs (hall n h.lt_length)

namespace Grammar.Plain

/-- Nothing is left open: a goal has one outcome at most. -/
theorem unique {stop? stop?' : Option Nat} {failures failures' : List Nat}
    (h : g.Plain input goal position stop? failures) (h' : g.Plain input goal position stop?' failures') :
    stop? = stop?' ∧ failures = failures' := by
  induction h generalizing stop?' failures' with
  | node hnode h ih =>
    cases h' with
    | node hnode' h' =>
      obtain rfl := Option.some.inj (hnode.symm.trans hnode')
      exact ih h'
  | literal h =>
    cases h' with
    | literal h' => exact ⟨rfl, rfl⟩
    | literalFails h' => exact absurd h h'.not_agreesFor
  | literalFails h =>
    cases h' with
    | literal h' => exact absurd h' h.not_agreesFor
    | literalFails h' => exact ⟨rfl, by rw [h.unique h']⟩
  | charClass h =>
    cases h' with
    | charClass h' => exact ⟨rfl, rfl⟩
    | charClassFails h' => exact absurd h h'
  | charClassFails h =>
    cases h' with
    | charClass h' => exact absurd h' h
    | charClassFails h' => exact ⟨rfl, rfl⟩
  | sequence h ih =>
    cases h' with
    | sequence h' => exact ih h'
  | choice h ih =>
    cases h' with
    | choice h' => exact ih h'
  | repetition h ih =>
    cases h' with
    | repetition h' => exact ih h'
  | predicate h ih =>
    cases h' with
    | predicate h' => exact ⟨by rw [(ih h').1], rfl⟩
  | rule h ih =>
    cases h' with
    | rule h' => exact ih h'
  | itemsEnd =>
    cases h' with
    | itemsEnd => exact ⟨rfl, rfl⟩
  | itemFails h ih =>
    cases h' with
    | itemFails h' => exact ih h'
    | item h' hrest' => nomatch (ih h').1
  | item h hrest ih ihrest =>
    cases h' with
    | itemFails h' => nomatch (ih h').1
    | item h' hrest' =>
      obtain ⟨hnext, rfl⟩ := ih h'
      obtain rfl := Option.some.inj hnext
      obtain ⟨rfl, rfl⟩ := ihrest hrest'
      exact ⟨rfl, rfl⟩
  | alternativesEnd =>
    cases h' with
    | alternativesEnd => exact ⟨rfl, rfl⟩
  | alternative h ih =>
    cases h' with
    | alternative h' => exact ih h'
    | alternativeFails h' hrest' => nomatch (ih h').1
  | alternativeFails h hrest ih ihrest =>
    cases h' with
    | alternative h' => nomatch (ih h').1
    | alternativeFails h' hrest' =>
      obtain ⟨_, rfl⟩ := ih h'
      obtain ⟨rfl, rfl⟩ := ihrest hrest'
      exact ⟨rfl, rfl⟩
  | roundsFull h =>
    cases h' with
    | roundsFull h' => exact ⟨rfl, rfl⟩
    | roundFails hmay' h' => exact absurd hmay' h
    | round hmay' h' hlt' hrest' => exact absurd hmay' h
    | emptyRound hmay' h' hle' => exact absurd hmay' h
  | roundFails hmay h ih =>
    cases h' with
    | roundsFull h' => exact absurd hmay h'
    | roundFails hmay' h' => exact ⟨rfl, (ih h').2⟩
    | round hmay' h' hlt' hrest' => nomatch (ih h').1
    | emptyRound hmay' h' hle' => nomatch (ih h').1
  | round hmay h hlt hrest ih ihrest =>
    cases h' with
    | roundsFull h' => exact absurd hmay h'
    | roundFails hmay' h' => nomatch (ih h').1
    | round hmay' h' hlt' hrest' =>
      obtain ⟨hnext, rfl⟩ := ih h'
      obtain rfl := Option.some.inj hnext
      obtain ⟨rfl, rfl⟩ := ihrest hrest'
      exact ⟨rfl, rfl⟩
    | emptyRound hmay' h' hle' =>
      obtain rfl := Option.some.inj (ih h').1
      exact absurd hlt hle'
  | emptyRound hmay h hle ih =>
    cases h' with
    | roundsFull h' => exact absurd hmay h'
    | roundFails hmay' h' => nomatch (ih h').1
    | round hmay' h' hlt' hrest' =>
      obtain rfl := Option.some.inj (ih h').1
      exact absurd hlt' hle
    | emptyRound hmay' h' hle' => exact ih h'

end Grammar.Plain

end Packrat
