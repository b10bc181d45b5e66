import Packrat.Proofs.Tokens

/-!
# Scanning definitions

The characters of a definition are put together to tokens one after the other. A literal is read with its escapes
undone, the bounds of a repetition are read as numbers, and a class is kept as it is written.
-/

namespace Packrat

/-- What the character before has left open. -/
inductive Mode where
  /-- Nothing: the next token has not begun. -/
  | between
  /-- A name, of which this much has been read. -/
  | name (read : List Char)
  /-- A literal, behind its first quote. -/
  | literal (read : List Char)
  /-- A literal, behind a backslash. -/
  | escape (read : List Char)
  /-- A literal, where a scalar value between braces is to follow. -/
  | unicode (read : List Char)
  /-- A literal, inside of these braces. -/
  | scalar (read : List Char) (value? : Option Nat)
  /-- A class in square brackets. -/
  | square (read : List Char)
  /-- A class in angle brackets. -/
  | angle (read : List Char)
  /-- The bounds of a repetition, up to the comma between them. -/
  | least (min? : Option Nat)
  /-- The bounds of a repetition, behind the comma. -/
  | most (min : Nat) (max? : Option Nat)

namespace Mode

/-- What a character means between two tokens, if it cannot belong to a name. -/
def start? (c : Char) : Option (List Token × Mode) :=
  match c with
  | ' ' => some ([], between)
  | '(' => some ([.opening], between)
  | ')' => some ([.closing], between)
  | '/' => some ([.slash], between)
  | '&' => some ([.sign true], between)
  | '!' => some ([.sign false], between)
  | '.' => some ([.atom (.charClass ".")], between)
  | '?' => some ([.suffix 0 (some 1)], between)
  | '*' => some ([.suffix 0 none], between)
  | '+' => some ([.suffix 1 none], between)
  | '"' => some ([], literal [])
  | '[' => some ([], square ['['])
  | '<' => some ([], angle ['<'])
  | '{' => some ([], least none)
  | _ => none

def digit? (base : Nat) (c : Char) : Option Nat := (List.range base).find? fun d => d.digitChar == c

/-- The character behind a backslash, other than for a scalar value. -/
def unescaped (c : Char) : Char :=
  match c with
  | 't' => '\t'
  | 'r' => '\r'
  | 'n' => '\n'
  | c => c

/-- The tokens that end with the character, and what is left open behind it. -/
def step? : Mode → Char → Option (List Token × Mode)
  | between, c => some ((start? c).getD ([], name [c]))
  | name read, c =>
    match start? c with
    | some (tokens, mode) => some (.atom (.rule (String.ofList read)) :: tokens, mode)
    | none => some ([], name (read ++ [c]))
  | literal read, c =>
    if c = '"' then some ([.atom (.literal (String.ofList read))], between)
    else if c = '\\' then some ([], escape read)
    else some ([], literal (read ++ [c]))
  | escape read, c => some ([], if c = 'u' then unicode read else literal (read ++ [unescaped c]))
  | unicode read, c => if c = '{' then some ([], scalar read none) else none
  | scalar read value?, c =>
    match digit? 16 c with
    | some d => some ([], scalar read (some (16 * value?.getD 0 + d)))
    | none => if c = '}' then value?.map fun value => ([], literal (read ++ [Char.ofNat value])) else none
  | square read, c =>
    -- the class of a range may hold a closing bracket as one of its ends
    if c = ']' ∧ 4 ≤ read.length then some ([.atom (.charClass (String.ofList (read ++ [c])))], between)
    else some ([], square (read ++ [c]))
  | angle read, c =>
    if c = '>' then some ([.atom (.charClass (String.ofList (read ++ [c])))], between)
    else some ([], angle (read ++ [c]))
  | least min?, c =>
    match digit? 10 c with
    | some d => some ([], least (some (10 * min?.getD 0 + d)))
    | none =>
      if c = ',' then some ([], most (min?.getD 0) none)
      else if c = '}' then min?.map fun min => ([.suffix min (some min)], between)
      else none
  | most min max?, c =>
    match digit? 10 c with
    | some d => some ([], most min (some (10 * max?.getD 0 + d)))
    | none => if c = '}' then some ([.suffix min max?], between) else none

def finish? : Mode → Option (List Token)
  | between => some []
  | name read => some [.atom (.rule (String.ofList read))]
  | _ => none

/-- The tokens of a text, if nothing is left open at its end. -/
def scan? : Mode → List Char → Option (List Token)
  | mode, [] => mode.finish?
  | mode, c :: rest => (mode.step? c).bind fun (tokens, mode) => (scan? mode rest).map (tokens ++ ·)

end Mode

def Reading.ofText? (text : String) : Option Reading := (Mode.between.scan? text.toList).bind Reading.ofTokens?

namespace Mode

variable {mode next : Mode} {c : Char} {rest : List Char} {tokens : List Token}

theorem scan?_cons (h : mode.step? c = some (tokens, next)) :
    mode.scan? (c :: rest) = (next.scan? rest).map (tokens ++ ·) := by
  simp [scan?, h]

theorem scan?_inside (next : Mode) (h : mode.step? c = some ([], next)) : mode.scan? (c :: rest) = next.scan? rest := by
  simp [scan?_cons h]

/-- A mode that keeps what it reads has kept the text behind it, if no character of the text ends it. -/
theorem scan?_collect {collect : List Char → Mode} {text read : List Char}
    (h : ∀ before c after, text = before ++ c :: after →
      (collect (read ++ before)).step? c = some ([], collect (read ++ before ++ [c]))) (rest : List Char) :
    (collect read).scan? (text ++ rest) = (collect (read ++ text)).scan? rest := by
  induction text generalizing read with
  | nil => rw [List.append_nil, List.nil_append]
  | cons c text ih =>
    have hc : (collect read).step? c = some ([], collect (read ++ [c])) := by
      simpa using h [] c text rfl
    have htext : ∀ before c' after, text = before ++ c' :: after →
        (collect (read ++ [c] ++ before)).step? c' = some ([], collect (read ++ [c] ++ before ++ [c'])) := by
      intro before c' after heq
      simpa using h (c :: before) c' after (by rw [heq, List.cons_append])
    rw [List.cons_append, scan?_inside _ hc, ih htext, List.append_assoc, List.singleton_append]

/-! ## Numbers -/

theorem digit?_digitChar {base d : Nat} (hbase : base ≤ 16) (hd : d < base) : digit? base d.digitChar = some d := by
  have hall : ∀ base ≤ 16, ∀ d < base, digit? base d.digitChar = some d := by decide
  exact hall base hbase d hd

/-- A mode that counts digits has counted the number behind all of them. -/
theorem scan?_toDigits {base : Nat} (hone : 1 < base) (hbase : base ≤ 16) (start : Mode) (counted : Nat → Mode)
    (hstart : ∀ c d, digit? base c = some d → start.step? c = some ([], counted d))
    (hnext : ∀ n c d, digit? base c = some d → (counted n).step? c = some ([], counted (base * n + d)))
    (n : Nat) (rest : List Char) :
    start.scan? (Nat.toDigits base n ++ rest) = (counted n).scan? rest := by
  induction n using Nat.strongRecOn generalizing rest with
  | ind n ih =>
    by_cases hlt : n < base
    · rw [Nat.toDigits_of_lt_base hlt, List.singleton_append]
      exact scan?_inside _ (hstart _ n (digit?_digitChar hbase hlt))
    · have hmod : n % base < base := Nat.mod_lt n (by omega)
      have hdiv : n / base < n := Nat.div_lt_self (by omega) hone
      have hstep := hnext (n / base) _ _ (digit?_digitChar hbase hmod)
      rw [Nat.div_add_mod] at hstep
      rw [Nat.toDigits_of_base_le hone (by omega), List.append_assoc, ih (n / base) hdiv, List.singleton_append,
        scan?_inside _ hstep]

/-! ## Literals -/

theorem scan?_scalarEscape (read : List Char) (c : Char) (rest : List Char) :
    (literal read).scan? ((Text.scalarEscape c).toList ++ rest) = (literal (read ++ [c])).scan? rest := by
  have hdigits : ∀ rest, (scalar read none).scan? (Nat.toDigits 16 c.toNat ++ rest) =
      (scalar read (some c.toNat)).scan? rest := by
    intro rest
    apply scan?_toDigits (by omega) (by omega) (scalar read none) (fun n => scalar read (some n))
    · intro c d h
      simp [step?, h]
    · intro n c d h
      simp [step?, h]
  have hclose : (scalar read (some c.toNat)).step? '}' = some ([], literal (read ++ [c])) := by
    have hdigit : digit? 16 '}' = none := by decide
    simp [step?, hdigit]
  have hchars : (Text.scalarEscape c).toList ++ rest =
      '\\' :: 'u' :: '{' :: (Nat.toDigits 16 c.toNat ++ '}' :: rest) := by
    simp [Text.scalarEscape]
  rw [hchars, scan?_inside (escape read) (by simp [step?]),
    scan?_inside (unicode read) (by simp [step?]), scan?_inside (scalar read none) (by simp [step?]),
    hdigits, scan?_inside _ hclose]

/-- A character of a literal is read as it was. -/
theorem scan?_asciiShown (read : List Char) (c : Char) (rest : List Char) :
    (literal read).scan? ((Text.asciiShown c).toList ++ rest) = (literal (read ++ [c])).scan? rest := by
  have hescaped : ∀ c', c' ≠ 'u' → (literal read).scan? ('\\' :: c' :: rest) =
      (literal (read ++ [unescaped c'])).scan? rest := by
    intro c' hc'
    rw [scan?_inside (escape read) (by simp [step?]),
      scan?_inside (literal (read ++ [unescaped c'])) (by simp [step?, hc'])]
  unfold Text.asciiShown
  split
  · subst_vars; exact hescaped 't' (by decide)
  split
  · subst_vars; exact hescaped 'r' (by decide)
  split
  · subst_vars; exact hescaped 'n' (by decide)
  split
  · rename_i hquote
    have hc : c = '\'' ∨ c = '"' ∨ c = '\\' := by simpa [or_assoc] using hquote
    rw [String.toList_ofList]
    rcases hc with rfl | rfl | rfl
    · exact hescaped '\'' (by decide)
    · exact hescaped '"' (by decide)
    · exact hescaped '\\' (by decide)
  split
  · rename_i hquote _
    have hc : c ≠ '"' ∧ c ≠ '\\' := by
      constructor <;> rintro rfl <;> simp at hquote
    rw [String.toList_singleton, List.singleton_append]
    exact scan?_inside _ (by simp [step?, hc])
  · exact scan?_scalarEscape read c rest

theorem scan?_asciiEscaped (read : List Char) (text : String) (rest : List Char) :
    (literal read).scan? ((Text.asciiEscaped text).toList ++ rest) = (literal (read ++ text.toList)).scan? rest := by
  have hall : ∀ (cs read : List Char), (literal read).scan? ((cs.map Text.asciiShown).flatMap String.toList ++ rest) =
      (literal (read ++ cs)).scan? rest := by
    intro cs
    induction cs with
    | nil => intro read; rw [List.append_nil]; rfl
    | cons c cs ih =>
      intro read
      rw [List.map_cons, List.flatMap_cons, List.append_assoc, scan?_asciiShown, ih, List.append_assoc,
        List.singleton_append]
  rw [Text.asciiEscaped, String.toList_join]
  exact hall text.toList read

/-! ## Texts and their tokens -/

/-- The text does not continue a name. -/
def Bounded (text : List Char) : Prop := ∀ c ∈ text.head?, (start? c).isSome

/-- The text is scanned as the tokens, wherever it stands. -/
def Scans (text : List Char) (tokens : List Token) : Prop :=
  ∀ rest, Bounded rest → between.scan? (text ++ rest) = (between.scan? rest).map (tokens ++ ·)

variable {text text' : List Char} {tokens' : List Token}

theorem bounded_cons (h : start? c = some (tokens, mode)) : Bounded (c :: text) := by
  simp [Bounded, h]

theorem Bounded.append (h : Bounded text) (h' : Bounded text') : Bounded (text ++ text') := by
  cases text with
  | nil => exact h'
  | cons c text => exact h

theorem Scans.nil : Scans [] [] := by
  intro rest _
  simp

theorem Scans.cons (hc : start? c = some (tokens, between)) (h : Scans text tokens') :
    Scans (c :: text) (tokens ++ tokens') := by
  intro rest hrest
  have hstep : between.step? c = some (tokens, between) := by simp [step?, hc]
  rw [List.cons_append, scan?_cons hstep, h rest hrest, Option.map_map]
  congr 1
  funext more
  simp

theorem Scans.append (h : Scans text tokens) (h' : Scans text' tokens') (hbounded : Bounded text') :
    Scans (text ++ text') (tokens ++ tokens') := by
  intro rest hrest
  rw [List.append_assoc, h _ (hbounded.append hrest), h' rest hrest, Option.map_map]
  congr 1
  funext more
  simp

theorem Scans.token {token : Token} (hc : start? c = some ([token], between)) (h : Scans text tokens) :
    Scans (c :: text) (token :: tokens) :=
  Scans.cons hc h

theorem Scans.blank (h : Scans text tokens) : Scans (' ' :: text) tokens := by
  have hblank : start? ' ' = some ([], between) := rfl
  exact Scans.cons hblank h

theorem Scans.bracketed (h : Scans text tokens) :
    Scans ('(' :: (text ++ [')'])) (.opening :: (tokens ++ [.closing])) := by
  have hclose : Scans [')'] [.closing] := .token rfl .nil
  exact .token rfl (h.append hclose (bounded_cons rfl))

theorem Scans.spaced (h : Scans text tokens) (h' : Scans text' tokens') :
    Scans (text ++ ' ' :: text') (tokens ++ tokens') :=
  h.append h'.blank (bounded_cons rfl)

theorem Scans.slashed (h : Scans text tokens) (h' : Scans text' tokens') :
    Scans (text ++ ' ' :: '/' :: ' ' :: text') (tokens ++ .slash :: tokens') := by
  have hslash : Scans ('/' :: ' ' :: text') (.slash :: tokens') := .token rfl h'.blank
  exact h.append hslash.blank (bounded_cons rfl)

theorem scans_literal (text : String) :
    Scans ('"' :: ((Text.asciiEscaped text).toList ++ ['"'])) [.atom (.literal text)] := by
  intro rest _
  have hclose : (literal text.toList).step? '"' = some ([.atom (.literal text)], between) := by
    simp [step?]
  rw [List.cons_append, List.append_assoc, List.singleton_append, scan?_inside (literal []) rfl,
    scan?_asciiEscaped, List.nil_append, scan?_cons hclose]

/-! ## Names and classes -/

def IsName (text : String) : Prop := text ≠ "" ∧ ∀ c ∈ text.toList, start? c = none

/-- Every identifier can be read, be it one of ASCII or not. -/
theorem isName_of_identifier {text : String} (hne : text ≠ "")
    (h : ∀ c ∈ text.toList, c.isAlphanum ∨ c = '_' ∨ 128 ≤ c.toNat) : IsName text := by
  refine ⟨hne, ?_⟩
  intro c hc
  have hclass := h c hc
  unfold start?
  split <;> first | rfl | (exfalso; revert hclass; decide)

theorem scan?_name (hrest : Bounded rest) (read : List Char) :
    (name read).scan? rest = (between.scan? rest).map (.atom (.rule (String.ofList read)) :: ·) := by
  cases rest with
  | nil => rfl
  | cons c rest =>
    obtain ⟨⟨tokens, mode⟩, hc⟩ := Option.isSome_iff_exists.1 (hrest c rfl)
    have hbetween : between.step? c = some (tokens, mode) := by simp [step?, hc]
    have hname : (name read).step? c = some (.atom (.rule (String.ofList read)) :: tokens, mode) := by
      simp [step?, hc]
    rw [scan?_cons hbetween, scan?_cons hname, Option.map_map]
    rfl

theorem scans_name {text : String} (h : IsName text) : Scans text.toList [.atom (.rule text)] := by
  intro rest hrest
  obtain ⟨hne, hall⟩ := h
  have hback : String.ofList text.toList = text := String.ofList_toList
  cases htext : text.toList with
  | nil => exact absurd (String.toList_eq_nil_iff.1 htext) hne
  | cons c cs =>
    rw [htext] at hall hback
    have hc : start? c = none := hall c List.mem_cons_self
    have hcs : (name [c]).scan? (cs ++ rest) = (name (c :: cs)).scan? rest := by
      apply scan?_collect
      rintro before c' after rfl
      have hc' : start? c' = none := hall c' (by simp)
      simp [step?, hc']
    rw [List.cons_append, scan?_inside (name [c]) (by simp [step?, hc]), hcs, scan?_name hrest, hback]
    rfl

theorem scans_angle {text : String} (h : '>' ∉ text.toList) :
    Scans ("<" ++ text ++ ">").toList [.atom (.charClass ("<" ++ text ++ ">"))] := by
  intro rest _
  have hback : String.ofList (['<'] ++ text.toList ++ ['>']) = "<" ++ text ++ ">" := by
    apply String.toList_injective
    simp
  have hclose : (angle (['<'] ++ text.toList)).step? '>' =
      some ([.atom (.charClass ("<" ++ text ++ ">"))], between) := by
    rw [step?, if_pos rfl, hback]
  have hchars : ("<" ++ text ++ ">").toList ++ rest = '<' :: (text.toList ++ '>' :: rest) := by simp
  have hname : ∀ rest, (angle ['<']).scan? (text.toList ++ rest) = (angle (['<'] ++ text.toList)).scan? rest := by
    apply scan?_collect
    intro before c after heq
    have hc : c ≠ '>' := by
      rintro rfl
      simp [heq] at h
    simp [step?, hc]
  rw [hchars, scan?_inside (angle ['<']) rfl, hname, scan?_cons hclose]

theorem scans_square (text : List Char) (hlength : 3 ≤ text.length) (h : ']' ∉ text ∨ text.length ≤ 3) :
    Scans ('[' :: (text ++ [']'])) [.atom (.charClass (String.ofList ('[' :: (text ++ [']']))))] := by
  intro rest _
  have htext : ∀ rest, (square ['[']).scan? (text ++ rest) = (square (['['] ++ text)).scan? rest := by
    apply scan?_collect
    rintro before c after rfl
    have hc : ¬ (c = ']' ∧ 4 ≤ (['['] ++ before).length) := by
      rintro ⟨rfl, hbefore⟩
      simp at h hbefore
      omega
    rw [step?, if_neg hc]
  have hclose : (square (['['] ++ text)).step? ']' =
      some ([.atom (.charClass (String.ofList ('[' :: (text ++ [']']))))], between) := by
    rw [step?, if_pos (by simpa using hlength), List.append_assoc]
    rfl
  rw [List.cons_append, List.append_assoc, List.singleton_append, scan?_inside (square ['[']) rfl, htext,
    scan?_cons hclose]

end Mode

/-- The class can be read: it is not one of an author whose name seems to end early. -/
def CharClass.Legible : CharClass → Prop
  | .custom name _ => '>' ∉ name.toList
  | _ => True

theorem Mode.scans_charClass {cls : CharClass} (h : cls.Legible) :
    Scans cls.definition.toList [.atom (.charClass cls.definition)] := by
  cases cls with
  | digit => exact scans_square ['0', '-', '9'] (by decide) (by decide)
  | letter => exact scans_square [':', 'a', 'l', 'p', 'h', 'a', ':'] (by decide) (by decide)
  | whitespace => exact scans_square [':', 's', 'p', 'a', 'c', 'e', ':'] (by decide) (by decide)
  | alphanumeric => exact scans_square [':', 'a', 'l', 'n', 'u', 'm', ':'] (by decide) (by decide)
  | any => exact .token rfl .nil
  | range lo hi =>
    rw [CharClass.definition, String.toList_ofList]
    exact scans_square [lo, '-', hi] (by simp) (.inr (by simp))
  | custom name test => exact scans_angle h

/-! ## Repetitions -/

namespace Mode

theorem scan?_least (n : Nat) (rest : List Char) :
    (least none).scan? ((toString n).toList ++ rest) = (least (some n)).scan? rest := by
  rw [Nat.toString_eq_ofList_toDigits, String.toList_ofList]
  apply scan?_toDigits (by omega) (by omega) (least none) (fun n => least (some n))
  · intro c d h
    simp [step?, h]
  · intro n c d h
    simp [step?, h]

theorem scan?_most (min n : Nat) (rest : List Char) :
    (most min none).scan? ((toString n).toList ++ rest) = (most min (some n)).scan? rest := by
  rw [Nat.toString_eq_ofList_toDigits, String.toList_ofList]
  apply scan?_toDigits (by omega) (by omega) (most min none) (fun n => most min (some n))
  · intro c d h
    simp [step?, h]
  · intro n c d h
    simp [step?, h]

theorem scan?_most_close (min : Nat) (max? : Option Nat) (rest : List Char) :
    (most min max?).scan? ('}' :: rest) = (between.scan? rest).map (.suffix min max? :: ·) := by
  have hdigit : digit? 10 '}' = none := by decide
  have hclose : (most min max?).step? '}' = some ([.suffix min max?], between) := by simp [step?, hdigit]
  exact scan?_cons hclose

theorem scan?_comma (min? : Option Nat) (rest : List Char) :
    (least min?).scan? (',' :: rest) = (most (min?.getD 0) none).scan? rest := by
  have hdigit : digit? 10 ',' = none := by decide
  have hcomma : (least min?).step? ',' = some ([], most (min?.getD 0) none) := by simp [step?, hdigit]
  exact scan?_inside _ hcomma

theorem scans_suffix (min : Nat) (max? : Option Nat) :
    Scans (Expr.suffix min max?).toList [.suffix min max?] := by
  have hopen : ∀ rest, between.scan? ('{' :: rest) = (least none).scan? rest := fun _ => scan?_inside _ rfl
  unfold Expr.suffix
  split
  · exact .token rfl .nil
  · exact .token rfl .nil
  · exact .token rfl .nil
  · intro rest _
    have hchars : (Text.braced (toString min ++ ",")).toList ++ rest =
        '{' :: ((toString min).toList ++ ',' :: '}' :: rest) := by simp
    rw [hchars, hopen, scan?_least, scan?_comma, scan?_most_close]
    rfl
  · rename_i max _
    split
    · intro rest _
      have hdigit : digit? 10 '}' = none := by decide
      have hclose : (least (some min)).step? '}' = some ([.suffix min (some min)], between) := by
        simp [step?, hdigit]
      have hchars : (Text.braced (toString min)).toList ++ rest =
          '{' :: ((toString min).toList ++ '}' :: rest) := by simp
      subst_vars
      rw [hchars, hopen, scan?_least, scan?_cons hclose]
    split
    · intro rest _
      have hchars : (Text.braced ("," ++ toString max)).toList ++ rest =
          '{' :: ',' :: ((toString max).toList ++ '}' :: rest) := by simp
      subst_vars
      rw [hchars, hopen, scan?_comma, Option.getD_none, scan?_most, scan?_most_close]
      rfl
    · intro rest _
      have hchars : (Text.braced (toString min ++ "," ++ toString max)).toList ++ rest =
          '{' :: ((toString min).toList ++ ',' :: ((toString max).toList ++ '}' :: rest)) := by simp
      rw [hchars, hopen, scan?_least, scan?_comma, Option.getD_some, scan?_most, scan?_most_close]
      rfl

end Mode

/-! ## Expressions -/

theorem Mode.bounded_suffix (min : Nat) (max? : Option Nat) : Bounded (Expr.suffix min max?).toList := by
  unfold Expr.suffix
  split
  · exact bounded_cons rfl
  · exact bounded_cons rfl
  · exact bounded_cons rfl
  · simp [Bounded, start?]
  · split
    · simp [Bounded, start?]
    · split <;> simp [Bounded, start?]

namespace Expr

mutual

def Legible : Expr → Prop
  | .literal _ | .missing _ => True
  | .charClass cls => cls.Legible
  | .rule name => Mode.IsName name
  | .sequence items => LegibleAll items
  | .choice alternatives => LegibleAll alternatives
  | .repetition body _ _ => body.Legible
  | .predicate body _ => body.Legible

def LegibleAll : List Expr → Prop
  | [] => True
  | e :: rest => e.Legible ∧ LegibleAll rest

end

end Expr

namespace Mode

theorem not_mem_nodeId_text (id : NodeId) : '>' ∉ (NodeId.text id).toList := by
  intro hmem
  have hdigit : '>' ∈ Nat.toDigits 10 id := by
    simpa [NodeId.text] using hmem
  have := Nat.isDigit_of_mem_toDigits (by omega) (by omega) hdigit
  simp at this

mutual

theorem scans_render : (e : Expr) → e.Legible → Scans e.render.toList e.tokens
  | .literal text, _ => by
    rw [Expr.render, Expr.tokens]
    simpa using scans_literal text
  | .charClass _, h => scans_charClass h
  | .rule _, h => scans_name h
  | .missing id, _ => scans_angle (not_mem_nodeId_text id)
  | .sequence items, h => by
    rw [Expr.render, Expr.tokens, String.toList_intercalate]
    exact scans_items items h
  | .choice alternatives, h => by
    rw [Expr.render, Expr.tokens, String.toList_intercalate, List.map_map]
    exact scans_alternatives alternatives h
  | .repetition body min max?, h => by
    have hbody := (scans_render body h).bracketed.append (scans_suffix min max?) (bounded_suffix min max?)
    simpa [Expr.render, Expr.tokens, Expr.bracketed] using hbody
  | .predicate body expected, h => by
    have hoperand : Scans (if body.needsBrackets then Expr.bracketed body.render else body.render).toList
        (if body.needsBrackets then .opening :: (body.tokens ++ [.closing]) else body.tokens) := by
      split
      · simpa [Expr.bracketed] using (scans_render body h).bracketed
      · exact scans_render body h
    cases expected with
    | true => simpa [Expr.render, Expr.tokens] using Scans.token (c := '&') rfl hoperand
    | false => simpa [Expr.render, Expr.tokens] using Scans.token (c := '!') rfl hoperand

theorem scans_items : (es : List Expr) → Expr.LegibleAll es →
    Scans (List.intercalate [' '] ((Expr.renderAll es).map String.toList)) (Expr.itemTokens es)
  | [], _ => .nil
  | [e], h => by
    have he := scans_render e h.1
    simpa [Expr.renderAll, Expr.itemTokens] using he
  | e :: e' :: es, h => by
    have hspaced := (scans_render e h.1).spaced (scans_items (e' :: es) h.2)
    simpa [Expr.renderAll, Expr.itemTokens, List.intercalate_cons_cons] using hspaced

theorem scans_alternatives : (es : List Expr) → Expr.LegibleAll es →
    Scans (List.intercalate [' ', '/', ' '] ((Expr.renderAll es).map (String.toList ∘ Expr.bracketed)))
      (Expr.alternativeTokens es)
  | [], _ => .nil
  | [e], h => by
    have he := (scans_render e h.1).bracketed
    simpa [Expr.renderAll, Expr.alternativeTokens, Expr.bracketed] using he
  | e :: e' :: es, h => by
    have hslashed := (scans_render e h.1).bracketed.slashed (scans_alternatives (e' :: es) h.2)
    simpa [Expr.renderAll, Expr.alternativeTokens, Expr.bracketed, List.intercalate_cons_cons] using hslashed

end

end Mode

/-- What is read of the text of an expression is what its groups make. -/
theorem Reading.ofText?_render {e : Expr} (hsolid : e.Solid) (hlegible : e.Legible) :
    ofText? e.render = some (.ofGroups e.groups) := by
  have hscan := Mode.scans_render e hlegible [] (by simp [Mode.Bounded])
  rw [List.append_nil, Mode.scan?, Mode.finish?, Option.map_some, List.append_nil] at hscan
  rw [ofText?, hscan, Option.bind_some, ofTokens?_tokens hsolid]

end Packrat
