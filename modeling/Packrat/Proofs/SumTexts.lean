import Packrat.Proofs.Plain
import Mathlib.Data.List.Basic

/-!
# Sums of numbers in an input

Which sum of numbers stands at a position of an input, if it is read as far as possible: as many digits as there are,
and further numbers as long as there is a sign with a digit behind it. The reading also says how far the input has to
be looked at for that. Among all sums that stand at a position this one is the longest.
-/

namespace Packrat

def IsNumberText (text : List Char) : Prop := text ≠ [] ∧ ∀ c ∈ text, CharClass.digit.accepts c = true

/-- The terms of a sum: one number or more. -/
def AreTerms (terms : List (List Char)) : Prop := terms ≠ [] ∧ ∀ term ∈ terms, IsNumberText term

def sumText (terms : List (List Char)) : List Char := ['+'].intercalate terms

theorem sumText_singleton (term : List Char) : sumText [term] = term := by simp [sumText, List.intercalate]

theorem sumText_cons {terms : List (List Char)} (hne : terms ≠ []) (term : List Char) :
    sumText (term :: terms) = term ++ '+' :: sumText terms := by
  rw [sumText, List.intercalate_cons_of_ne_nil hne, List.append_assoc]
  rfl

/-- A sum whose text stands at the beginning of `text`, and no other one that does is longer. -/
structure IsLongestSum (text : List Char) (terms : List (List Char)) : Prop where
  areTerms : AreTerms terms
  isPrefix : sumText terms <+: text
  longest : ∀ others, AreTerms others → sumText others <+: text → (sumText others).length ≤ (sumText terms).length

/-- From `start` to `stop` stand the given digits, and no further digit follows. -/
inductive DigitsAt (input : Array Char) : (start : Nat) → (digits : List Char) → (stop : Nat) → Prop
  | none {start : Nat} (h : ¬ CharClass.digit.AcceptsAt input start) : DigitsAt input start [] start
  | digit {start stop : Nat} {c : Char} {digits : List Char} (hc : input[start]? = some c)
      (hdigit : CharClass.digit.accepts c = true) (hrest : DigitsAt input (start + 1) digits stop) :
      DigitsAt input start (c :: digits) stop

/-- The terms that follow a number which ends at `start`, up to `stop`. What comes after them has been looked at as
far as `reach`: there is no sign, or there is one without a digit behind it. -/
inductive TermsAt (input : Array Char) : (start : Nat) → (terms : List (List Char)) → (stop reach : Nat) → Prop
  | none {start : Nat} (hsign : input[start]? ≠ some '+') : TermsAt input start [] start start
  | sign {start : Nat} (hsign : input[start]? = some '+') (hdigits : DigitsAt input (start + 1) [] (start + 1)) :
      TermsAt input start [] start (start + 1)
  | term {start next stop reach : Nat} {digits : List Char} {terms : List (List Char)}
      (hsign : input[start]? = some '+') (hdigits : DigitsAt input (start + 1) digits next) (hne : digits ≠ [])
      (hrest : TermsAt input next terms stop reach) : TermsAt input start (digits :: terms) stop reach

/-- The sum that stands at `start`, and how far it is looked for. Without a digit there is none. -/
inductive SumAt (input : Array Char) : (start : Nat) → (terms : List (List Char)) → (stop reach : Nat) → Prop
  | none {start : Nat} (hdigits : DigitsAt input start [] start) : SumAt input start [] start start
  | sum {start next stop reach : Nat} {digits : List Char} {terms : List (List Char)}
      (hdigits : DigitsAt input start digits next) (hne : digits ≠ []) (hterms : TermsAt input next terms stop reach) :
      SumAt input start (digits :: terms) stop reach

variable {input : Array Char} {start next next' stop stop' reach reach' : Nat} {c : Char}
  {digits digits' first more : List Char} {terms terms' others : List (List Char)}

/-! ## There is one reading -/

theorem DigitsAt.unique (h : DigitsAt input start digits stop) (h' : DigitsAt input start digits' stop') :
    digits = digits' ∧ stop = stop' := by
  induction h generalizing digits' stop' with
  | none hnot =>
    cases h' with
    | none => exact ⟨rfl, rfl⟩
    | digit hc hdigit => exact absurd ⟨_, hc, hdigit⟩ hnot
  | digit hc hdigit _ ih =>
    cases h' with
    | none hnot => exact absurd ⟨_, hc, hdigit⟩ hnot
    | digit hc' _ hrest' =>
      obtain rfl := Option.some.inj (hc.symm.trans hc')
      obtain ⟨rfl, rfl⟩ := ih hrest'
      exact ⟨rfl, rfl⟩

theorem TermsAt.unique (h : TermsAt input start terms stop reach) (h' : TermsAt input start terms' stop' reach') :
    terms = terms' ∧ stop = stop' ∧ reach = reach' := by
  induction h generalizing terms' stop' reach' with
  | none hsign =>
    cases h' with
    | none => exact ⟨rfl, rfl, rfl⟩
    | sign hsign' => exact absurd hsign' hsign
    | term hsign' => exact absurd hsign' hsign
  | sign hsign hdigits =>
    cases h' with
    | none hsign' => exact absurd hsign hsign'
    | sign => exact ⟨rfl, rfl, rfl⟩
    | term _ hdigits' hne => exact absurd (hdigits.unique hdigits').1.symm hne
  | term hsign hdigits hne _ ih =>
    cases h' with
    | none hsign' => exact absurd hsign hsign'
    | sign _ hdigits' => exact absurd (hdigits.unique hdigits').1 hne
    | term _ hdigits' _ hrest' =>
      obtain ⟨rfl, rfl⟩ := hdigits.unique hdigits'
      obtain ⟨rfl, rfl, rfl⟩ := ih hrest'
      exact ⟨rfl, rfl, rfl⟩

theorem SumAt.unique (h : SumAt input start terms stop reach) (h' : SumAt input start terms' stop' reach') :
    terms = terms' ∧ stop = stop' ∧ reach = reach' := by
  cases h with
  | none hdigits =>
    cases h' with
    | none => exact ⟨rfl, rfl, rfl⟩
    | sum hdigits' hne => exact absurd (hdigits.unique hdigits').1.symm hne
  | sum hdigits hne hterms =>
    cases h' with
    | none hdigits' => exact absurd (hdigits.unique hdigits').1 hne
    | sum hdigits' _ hterms' =>
      obtain ⟨rfl, rfl⟩ := hdigits.unique hdigits'
      obtain ⟨rfl, rfl, rfl⟩ := hterms.unique hterms'
      exact ⟨rfl, rfl, rfl⟩

theorem DigitsAt.stop_eq (h : DigitsAt input start digits stop) : stop = start + digits.length := by
  induction h with
  | none => rfl
  | digit _ _ _ ih =>
    rw [ih, List.length_cons]
    omega

theorem TermsAt.le (h : TermsAt input start terms stop reach) : start ≤ stop ∧ stop ≤ reach := by
  induction h with
  | none => exact ⟨Nat.le_refl _, Nat.le_refl _⟩
  | sign => exact ⟨Nat.le_refl _, Nat.le_succ _⟩
  | term _ hdigits _ _ ih =>
    have hnext := hdigits.stop_eq
    omega

theorem TermsAt.last (h : TermsAt input start terms stop reach) : TermsAt input stop [] stop reach := by
  induction h with
  | none hsign => exact .none hsign
  | sign hsign hdigits => exact .sign hsign hdigits
  | term _ _ _ _ ih => exact ih

theorem SumAt.behind_sign (h : SumAt input (start + 1) terms stop reach) (hsign : input[start]? = some '+')
    (hne : terms ≠ []) : TermsAt input start terms stop reach := by
  cases h with
  | none => exact absurd rfl hne
  | sum hdigits hfirst hterms => exact .term hsign hdigits hfirst hterms

/-! ## Where the sum stands -/

theorem drop_eq_cons (hc : input[start]? = some c) : input.toList.drop start = c :: input.toList.drop (start + 1) := by
  rw [← Array.getElem?_toList] at hc
  obtain ⟨hlt, rfl⟩ := List.getElem?_eq_some_iff.1 hc
  exact List.drop_eq_getElem_cons hlt

theorem getElem?_of_drop (h : c :: more <+: input.toList.drop start) : input[start]? = some c := by
  obtain ⟨rest, hrest⟩ := h
  rw [← Array.getElem?_toList, ← List.head?_drop, ← hrest]
  rfl

theorem DigitsAt.isNumberText (h : DigitsAt input start digits stop) (hne : digits ≠ []) : IsNumberText digits := by
  refine ⟨hne, ?_⟩
  clear hne
  induction h with
  | none => simp
  | digit _ hdigit _ ih => exact List.forall_mem_cons.2 ⟨hdigit, ih⟩

theorem DigitsAt.drop_eq (h : DigitsAt input start digits stop) :
    input.toList.drop start = digits ++ input.toList.drop stop := by
  induction h with
  | none => rfl
  | digit hc _ _ ih => rw [drop_eq_cons hc, ih, List.cons_append]

theorem TermsAt.areTerms (h : TermsAt input start terms stop reach) : ∀ term ∈ terms, IsNumberText term := by
  induction h with
  | none => simp
  | sign => simp
  | term _ hdigits hne _ ih => exact List.forall_mem_cons.2 ⟨hdigits.isNumberText hne, ih⟩

theorem TermsAt.drop_eq (h : TermsAt input next terms stop reach) (hdigits : DigitsAt input start digits next) :
    input.toList.drop start = sumText (digits :: terms) ++ input.toList.drop stop ∧
      stop = start + (sumText (digits :: terms)).length := by
  induction h generalizing start digits with
  | none => exact ⟨by rw [sumText_singleton, hdigits.drop_eq], by rw [sumText_singleton, hdigits.stop_eq]⟩
  | sign => exact ⟨by rw [sumText_singleton, hdigits.drop_eq], by rw [sumText_singleton, hdigits.stop_eq]⟩
  | @term next _ _ _ _ terms hsign hdigits' _ _ ih =>
    obtain ⟨hdrop, hstop⟩ := ih hdigits'
    rw [sumText_cons (List.cons_ne_nil _ _)]
    constructor
    · rw [hdigits.drop_eq, drop_eq_cons hsign, hdrop, List.append_assoc, List.cons_append]
    · rw [hstop, hdigits.stop_eq, List.length_append, List.length_cons]
      omega

/-- A run of digits goes on behind any digits that stand at its beginning. -/
theorem DigitsAt.split (h : DigitsAt input start digits stop) (hfirst : ∀ c ∈ first, CharClass.digit.accepts c = true)
    (hstands : first ++ more <+: input.toList.drop start) :
    ∃ rest, DigitsAt input (start + first.length) rest stop ∧ more <+: input.toList.drop (start + first.length) := by
  induction first generalizing start digits with
  | nil => exact ⟨digits, h, hstands⟩
  | cons c first ih =>
    have hc : input[start]? = some c := getElem?_of_drop hstands
    cases h with
    | none hnot => exact absurd ⟨c, hc, hfirst c List.mem_cons_self⟩ hnot
    | digit hc' _ hrest =>
      rw [drop_eq_cons hc, List.cons_append, List.cons_prefix_cons] at hstands
      obtain ⟨rest, hrest, hmore⟩ := ih hrest (fun d hd => hfirst d (List.mem_cons_of_mem _ hd)) hstands.2
      refine ⟨rest, ?_, ?_⟩
      · rwa [List.length_cons, Nat.add_comm first.length 1, ← Nat.add_assoc]
      · rwa [List.length_cons, Nat.add_comm first.length 1, ← Nat.add_assoc]

/-- A sum that stands somewhere begins with a digit there. -/
theorem AreTerms.exists_digit (h : AreTerms others) (hstands : sumText others <+: input.toList.drop start) :
    CharClass.digit.AcceptsAt input start := by
  obtain ⟨hne, hothers⟩ := h
  obtain ⟨first, more, rfl⟩ := List.exists_cons_of_ne_nil hne
  obtain ⟨hfirst, hdigits⟩ := hothers first List.mem_cons_self
  obtain ⟨c, first, rfl⟩ := List.exists_cons_of_ne_nil hfirst
  refine ⟨c, ?_, hdigits c List.mem_cons_self⟩
  cases more with
  | nil =>
    rw [sumText_singleton] at hstands
    exact getElem?_of_drop hstands
  | cons second more =>
    rw [sumText_cons (List.cons_ne_nil _ _), List.cons_append] at hstands
    exact getElem?_of_drop hstands

theorem DigitsAt.acceptsAt_iff (h : DigitsAt input start digits stop) :
    CharClass.digit.AcceptsAt input start ↔ digits ≠ [] := by
  cases h with
  | none hnot => simp [hnot]
  | digit hc hdigit => simpa using ⟨_, hc, hdigit⟩

theorem SumAt.acceptsAt_iff (h : SumAt input start terms stop reach) :
    CharClass.digit.AcceptsAt input start ↔ terms ≠ [] := by
  cases h with
  | none hdigits => simp [hdigits.acceptsAt_iff]
  | sum hdigits hne => simp [hdigits.acceptsAt_iff, hne]

/-- A sum that stands where a number stands is no longer than the number, or has further terms behind it. -/
theorem DigitsAt.sum_cases (h : DigitsAt input start digits next) (hothers : AreTerms others)
    (hstands : sumText others <+: input.toList.drop start) :
    start + (sumText others).length ≤ next ∨
      ∃ more, AreTerms more ∧ input[next]? = some '+' ∧ sumText more <+: input.toList.drop (next + 1) ∧
        start + (sumText others).length = next + 1 + (sumText more).length := by
  obtain ⟨hne, hterms⟩ := hothers
  obtain ⟨first, more, rfl⟩ := List.exists_cons_of_ne_nil hne
  obtain ⟨⟨_, hfirst⟩, hmore⟩ := List.forall_mem_cons.1 hterms
  by_cases hlast : more = []
  · subst hlast
    rw [sumText_singleton] at hstands ⊢
    have hall : first ++ [] <+: input.toList.drop start := by rwa [List.append_nil]
    obtain ⟨rest, hrest, _⟩ := h.split hfirst hall
    have hnext := hrest.stop_eq
    exact .inl (by omega)
  · rw [sumText_cons hlast] at hstands ⊢
    obtain ⟨rest, hrest, hstands⟩ := h.split hfirst hstands
    have hsign : input[start + first.length]? = some '+' := getElem?_of_drop hstands
    cases hrest with
    | digit hc hdigit =>
      obtain rfl := Option.some.inj (hsign.symm.trans hc)
      cases hdigit
    | none =>
      rw [drop_eq_cons hsign, List.cons_prefix_cons] at hstands
      refine .inr ⟨more, ⟨hlast, hmore⟩, hsign, hstands.2, ?_⟩
      rw [List.length_append, List.length_cons]
      omega

/-- Any sum that stands where the number stands ends no later than the terms behind the number. -/
theorem TermsAt.length_le (h : TermsAt input next terms stop reach) (hdigits : DigitsAt input start digits next)
    (hothers : AreTerms others) (hstands : sumText others <+: input.toList.drop start) :
    start + (sumText others).length ≤ stop := by
  induction h generalizing start digits others with
  | none hsign =>
    rcases hdigits.sum_cases hothers hstands with hle | ⟨_, _, hsign', _⟩
    · exact hle
    · exact absurd hsign' hsign
  | sign _ hnone =>
    rcases hdigits.sum_cases hothers hstands with hle | ⟨more, hmore, _, hstands, _⟩
    · exact hle
    · exact absurd rfl (hnone.acceptsAt_iff.1 (hmore.exists_digit hstands))
  | term _ hdigits' _ hrest ih =>
    rcases hdigits.sum_cases hothers hstands with hle | ⟨more, hmore, _, hstands, heq⟩
    · have hnext := hdigits'.stop_eq
      have hstop := hrest.le
      omega
    · rw [heq]
      exact ih hdigits' hmore hstands

theorem SumAt.isLongestSum (h : SumAt input start terms stop reach) (hne : terms ≠ []) :
    IsLongestSum (input.toList.drop start) terms ∧ stop = start + (sumText terms).length := by
  cases h with
  | none => exact absurd rfl hne
  | sum hdigits hfirst hterms =>
    obtain ⟨hdrop, hstop⟩ := hterms.drop_eq hdigits
    refine ⟨⟨⟨hne, ?_⟩, ?_, fun others hothers hstands => ?_⟩, hstop⟩
    · exact List.forall_mem_cons.2 ⟨hdigits.isNumberText hfirst, hterms.areTerms⟩
    · rw [hdrop]
      exact List.prefix_append _ _
    · have hle := hterms.length_le hdigits hothers hstands
      omega

end Packrat
