import Packrat.Match.Tree

/-!
# Visits

A walk through a tree comes to every match before it comes to those below it. Both written forms of a tree list the
matches in the order of such a walk: the text by its lines, the JSON by its objects. In the full view all of them are
listed. In the visible view the hidden ones are left out, and a match is set in by as many levels as there are matches
above it that are not hidden.
-/

namespace Packrat

/-- What both written forms of a tree say about one of its matches. -/
structure Entry where
  depth : Nat
  label : String
  text : String
  status : String
  start : Nat
  stop : Nat
deriving DecidableEq

namespace Entry

/-- The entry as a line of the text: two spaces for each level, and then the parts with a space between them. -/
def line (e : Entry) : String :=
  String.ofList (List.replicate (2 * e.depth) ' ') ++
    " ".intercalate [e.label, Text.quoted e.text, e.status, toString e.start ++ ".." ++ toString e.stop] ++ "\n"

/-- A line begins with two spaces for each level, and then shows the label and the quoted text. -/
theorem toList_line (e : Entry) : ∃ rest, e.line.toList =
    List.replicate (2 * e.depth) ' ' ++ e.label.toList ++ ' ' :: (Text.quoted e.text).toList ++ ' ' :: rest := by
  refine ⟨e.status.toList ++ ' ' :: ((toString e.start ++ ".." ++ toString e.stop).toList ++ ['\n']), ?_⟩
  simp [line]

end Entry

namespace Json

def entry? (depth : Nat) (members : List (String × Json)) : Option Entry :=
  match members.lookup "type", members.lookup "data", members.lookup "left_recursion", members.lookup "s",
    members.lookup "e" with
  | some (.str label), some (.str text), some (.str status), some (.nat start), some (.nat stop) =>
    some ⟨depth, label, text, status, start, stop⟩
  | _, _, _, _, _ => none

mutual

/-- The entries of a value, each before those of the objects below it; `none` if some object is not the one of a
match. An array has no entry of its own. -/
def entriesAt? (depth : Nat) : Json → Option (List Entry)
  | .obj members =>
    match entry? depth members, entriesBelow? (depth + 1) members with
    | some entry, some entries => some (entry :: entries)
    | _, _ => none
  | .arr items => entriesOfAll? depth items
  | _ => none

def entriesOfAll? (depth : Nat) : List Json → Option (List Entry)
  | [] => some []
  | item :: rest =>
    match entriesAt? depth item, entriesOfAll? depth rest with
    | some entries, some others => some (entries ++ others)
    | _, _ => none

def entriesBelow? (depth : Nat) : List (String × Json) → Option (List Entry)
  | [] => some []
  | (key, value) :: rest => if key = "subs" then entriesAt? depth value else entriesBelow? depth rest

end

def entries? (json : Json) : Option (List Entry) := json.entriesAt? 0

end Json

/-- A match in a tree, together with all the matches that it is below, from the root on. -/
structure Visit where
  above : List Match
  here : Match

namespace Visit

def fullEntry (v : Visit) : Entry :=
  ⟨v.above.length, v.here.label, v.here.text, v.here.status.text, v.here.start, v.here.stop⟩

/-- Whether the visible view lists the match: if it is not hidden, or if it is a root that has failed. -/
def isShown (v : Visit) : Bool := !v.here.hidden || (v.above.isEmpty && !v.here.success)

/-- The number of the matches above that are not hidden, and one more below a hidden root that is listed because it has
failed. -/
def visibleDepth (v : Visit) : Nat :=
  v.above.countP (fun m => !m.hidden) + if v.above.head?.any (fun m => m.hidden && !m.success) then 1 else 0

def visibleEntry (v : Visit) : Entry := { v.fullEntry with depth := v.visibleDepth }

end Visit

namespace Match

mutual

/-- The match, which is below those in `above`, and all the matches below it, in the order of a walk. -/
def visitsFrom (above : List Match) : Match → List Visit
  | ⟨success, start, stop, text, status, origin?, children⟩ =>
    let m : Match := ⟨success, start, stop, text, status, origin?, children⟩
    ⟨above, m⟩ :: visitsBelow (above ++ [m]) children

def visitsBelow (above : List Match) : List Match → List Visit
  | [] => []
  | m :: rest => visitsFrom above m ++ visitsBelow above rest

end

def visits (m : Match) : List Visit := visitsFrom [] m

def entry (depth : Nat) (m : Match) : Entry := ⟨depth, m.label, m.text, m.status.text, m.start, m.stop⟩

theorem line_entry (depth : Nat) (m : Match) : (m.entry depth).line = m.line depth := by
  rw [← String.toList_inj]
  simp [Entry.line, entry, line, Text.spaces, Nat.mul_comm]

theorem visitsFrom_eq (above : List Match) (m : Match) :
    visitsFrom above m = ⟨above, m⟩ :: visitsBelow (above ++ [m]) m.children := by
  cases m
  rw [visitsFrom]

mutual

theorem above_of_mem_visitsFrom :
    ∀ (m : Match) (above : List Match) (v : Visit), v ∈ visitsFrom above m → ∃ between, v.above = above ++ between
  | ⟨success, start, stop, text, status, origin?, children⟩, above, v, hv => by
    rw [visitsFrom] at hv
    rcases List.mem_cons.1 hv with rfl | hv
    · exact ⟨[], (List.append_nil above).symm⟩
    · obtain ⟨between, hbetween⟩ := above_of_mem_visitsBelow children _ v hv
      exact ⟨_ :: between, by simpa using hbetween⟩

theorem above_of_mem_visitsBelow :
    ∀ (ms above : List Match) (v : Visit), v ∈ visitsBelow above ms → ∃ between, v.above = above ++ between
  | [], above, v, hv => by simp [visitsBelow] at hv
  | m :: rest, above, v, hv => by
    rw [visitsBelow] at hv
    rcases List.mem_append.1 hv with hv | hv
    · exact above_of_mem_visitsFrom m above v hv
    · exact above_of_mem_visitsBelow rest above v hv

end

/-! ## Entries of a view -/

def levels (view : View) (above : List Match) : Nat := above.countP fun m => !view.omits m

/-- The entries of the matches that a view does not pass over; `base` is the depth of a match that has no such match
above it. -/
def listed (view : View) (base : Nat) (vs : List Visit) : List Entry :=
  (vs.filter fun v => !view.omits v.here).map fun v => v.here.entry (base + levels view v.above)

variable {view : View} {base depth : Nat} {above : List Match} {m : Match}

theorem levels_append_of_omits (h : view.omits m = true) : levels view (above ++ [m]) = levels view above := by
  simp [levels, h]

theorem levels_append_of_not_omits (h : view.omits m = false) :
    levels view (above ++ [m]) = levels view above + 1 := by
  simp [levels, h]

theorem listed_append (vs ws : List Visit) :
    listed view base (vs ++ ws) = listed view base vs ++ listed view base ws := by
  simp [listed]

theorem listed_visitsFrom_of_omits (h : view.omits m = true) :
    listed view base (visitsFrom above m) = listed view base (visitsBelow (above ++ [m]) m.children) := by
  simp [visitsFrom_eq, listed, h]

theorem listed_visitsFrom_of_not_omits (h : view.omits m = false) :
    listed view base (visitsFrom above m) =
      m.entry (base + levels view above) :: listed view base (visitsBelow (above ++ [m]) m.children) := by
  simp [visitsFrom_eq, listed, h]

mutual

theorem lines_eq_listed : ∀ (m : Match) (above : List Match),
    lines view (base + levels view above) m = String.join ((listed view base (visitsFrom above m)).map Entry.line)
  | ⟨success, start, stop, text, status, origin?, children⟩, above => by
    let m : Match := ⟨success, start, stop, text, status, origin?, children⟩
    cases homits : view.omits m with
    | true =>
      rw [listed_visitsFrom_of_omits homits, lines_of_omits homits, ← levels_append_of_omits homits]
      exact linesAll_eq_listed children _
    | false =>
      rw [listed_visitsFrom_of_not_omits homits, lines_of_not_omits homits, Nat.add_assoc,
        ← levels_append_of_not_omits homits, List.map_cons, String.join_cons, line_entry]
      exact congrArg _ (linesAll_eq_listed children _)

theorem linesAll_eq_listed : ∀ (ms above : List Match),
    linesAll view (base + levels view above) ms = String.join ((listed view base (visitsBelow above ms)).map Entry.line)
  | [], above => by simp [linesAll, visitsBelow, listed]
  | m :: rest, above => by
    rw [linesAll, visitsBelow, listed_append, List.map_append, String.join_append, lines_eq_listed m above,
      linesAll_eq_listed rest above]

end

/-- The object of a match has its entry, and before those of the objects below it. -/
theorem entriesAt?_jsonObject (below : List Json) :
    (m.jsonObject below).entriesAt? depth =
      (Json.entriesOfAll? (depth + 1) below).map (m.entry depth :: ·) := by
  cases below with
  | nil =>
    simp [jsonObject, Json.entriesAt?, Json.entry?, Json.entriesBelow?, Json.entriesOfAll?, List.lookup_cons, entry]
  | cons first rest =>
    cases hbelow : Json.entriesOfAll? (depth + 1) (first :: rest) <;>
      simp [jsonObject, Json.entriesAt?, Json.entry?, Json.entriesBelow?, List.lookup_cons, entry, hbelow]

theorem entriesOfAll?_append {items others : List Json} {entries entries' : List Entry}
    (h : Json.entriesOfAll? depth items = some entries) (h' : Json.entriesOfAll? depth others = some entries') :
    Json.entriesOfAll? depth (items ++ others) = some (entries ++ entries') := by
  induction items generalizing entries with
  | nil =>
    obtain rfl : entries = [] := by simpa [Json.entriesOfAll?] using h.symm
    exact h'
  | cons item rest ih =>
    rw [Json.entriesOfAll?] at h
    split at h
    · rename_i first following hfirst hfollowing
      obtain rfl : entries = first ++ following := by simpa using h.symm
      rw [List.cons_append, Json.entriesOfAll?, hfirst, ih hfollowing, List.append_assoc]
    · nomatch h

theorem entriesOfAll?_singleton (json : Json) : Json.entriesOfAll? depth [json] = json.entriesAt? depth := by
  rw [Json.entriesOfAll?, Json.entriesOfAll?]
  cases json.entriesAt? depth <;> simp

mutual

theorem entriesOfAll?_jsonNodes : ∀ (m : Match) (above : List Match),
    Json.entriesOfAll? (base + levels view above) (jsonNodes view m) = some (listed view base (visitsFrom above m))
  | ⟨success, start, stop, text, status, origin?, children⟩, above => by
    let m : Match := ⟨success, start, stop, text, status, origin?, children⟩
    cases homits : view.omits m with
    | true =>
      rw [listed_visitsFrom_of_omits homits, jsonNodes_of_omits homits, ← levels_append_of_omits homits]
      exact entriesOfAll?_jsonNodesAll children _
    | false =>
      rw [listed_visitsFrom_of_not_omits homits, jsonNodes_of_not_omits homits, entriesOfAll?_singleton,
        entriesAt?_jsonObject, Nat.add_assoc, ← levels_append_of_not_omits homits, entriesOfAll?_jsonNodesAll children]
      rfl

/-- The objects of the JSON have the entries. -/
theorem entriesOfAll?_jsonNodesAll : ∀ (ms above : List Match),
    Json.entriesOfAll? (base + levels view above) (jsonNodesAll view ms) = some (listed view base (visitsBelow above ms))
  | [], above => rfl
  | m :: rest, above => by
    rw [jsonNodesAll, visitsBelow, listed_append]
    exact entriesOfAll?_append (entriesOfAll?_jsonNodes m above) (entriesOfAll?_jsonNodesAll rest above)

end

/-! ## The root -/

/-- The entries of a tree. A root that the view passes over is listed all the same if it has failed, and what is below
it is then one level deeper. -/
def listing (view : View) (m : Match) : List Entry :=
  if view.omitsRoot m then listed view 0 (visitsBelow [m] m.children)
  else m.entry 0 :: listed view (if view.omits m then 1 else 0) (visitsBelow [m] m.children)

theorem levels_root_of_omits (h : view.omits m = true) : levels view [m] = 0 := by
  simp [levels, h]

/-- In either case the depth below a root that is listed is one. -/
theorem levels_root (view : View) (m : Match) : (if view.omits m then 1 else 0) + levels view [m] = 1 := by
  cases homits : view.omits m <;> simp [levels, homits]

theorem tree_eq_listing (view : View) (m : Match) : m.tree view = String.join ((m.listing view).map Entry.line) := by
  unfold tree listing
  split
  · rename_i hroot
    have homits : view.omits m = true := (Bool.and_eq_true_iff.1 hroot).1
    rw [← linesAll_eq_listed, levels_root_of_omits homits]
  · rw [List.map_cons, String.join_cons, ← linesAll_eq_listed, levels_root, line_entry]

theorem entries?_toJson (view : View) (m : Match) : (m.toJson view).entries? = some (m.listing view) := by
  unfold toJson listing Json.entries?
  split
  · rename_i hroot
    have homits : view.omits m = true := (Bool.and_eq_true_iff.1 hroot).1
    rw [Json.entriesAt?, ← entriesOfAll?_jsonNodesAll, levels_root_of_omits homits]
  · have hbelow : Json.entriesOfAll? ((if view.omits m then 1 else 0) + levels view [m]) (jsonNodesAll view m.children) =
        some (listed view (if view.omits m then 1 else 0) (visitsBelow [m] m.children)) :=
      entriesOfAll?_jsonNodesAll m.children [m]
    rw [levels_root] at hbelow
    rw [entriesAt?_jsonObject, hbelow]
    rfl

theorem listing_full (m : Match) : m.listing .full = m.visits.map Visit.fullEntry := by
  have hlevels : ∀ above, levels .full above = above.length := by simp [levels, View.omits]
  have hlisted : ∀ vs, listed .full 0 vs = vs.map Visit.fullEntry := by
    intro vs
    have hall : (vs.filter fun v => !View.full.omits v.here) = vs := List.filter_eq_self.2 fun _ _ => rfl
    rw [listed, hall]
    apply List.map_congr_left
    intro v _
    simp [Visit.fullEntry, entry, hlevels]
  simp [listing, View.omitsRoot, View.omits, visits, visitsFrom_eq, hlisted, entry, Visit.fullEntry]

theorem listed_visible (m : Match) :
    listed .visible (if m.hidden && !m.success then 1 else 0) (visitsBelow [m] m.children) =
      ((visitsBelow [m] m.children).filter Visit.isShown).map Visit.visibleEntry := by
  have habove : ∀ v ∈ visitsBelow [m] m.children, v.above.head? = some m := by
    intro v hv
    obtain ⟨between, hbetween⟩ := above_of_mem_visitsBelow m.children [m] v hv
    simp [hbetween]
  have hfilter : ∀ v ∈ visitsBelow [m] m.children, (!View.visible.omits v.here) = v.isShown := by
    intro v hv
    have hnonempty : v.above ≠ [] := by
      intro hnil
      simpa [hnil] using habove v hv
    simp [View.omits, Visit.isShown, hnonempty]
  rw [listed, List.filter_congr hfilter]
  apply List.map_congr_left
  intro v hv
  have hhead := habove v ((List.mem_filter.1 hv).1)
  simp [Visit.visibleEntry, Visit.fullEntry, Visit.visibleDepth, entry, levels, View.omits, hhead, Nat.add_comm]

theorem listing_visible (m : Match) : m.listing .visible = (m.visits.filter Visit.isShown).map Visit.visibleEntry := by
  have hbelow := listed_visible m
  rw [listing, visits, visitsFrom_eq, List.nil_append]
  cases hhidden : m.hidden <;> cases hsuccess : m.success <;>
    simp_all [View.omitsRoot, View.omits, Visit.isShown, Visit.visibleEntry, Visit.fullEntry, Visit.visibleDepth, entry]

/-- The text and the JSON of a tree list the same matches in the order of a walk: all of them in the full view, and in
the visible view those that are not hidden. A root that has failed is listed even if it is hidden; as long as it has no
children, the depth in the visible view is the number of the matches above that are not hidden. -/
theorem written_forms_list_visits (m : Match) :
    (∀ view, ∃ entries, (m.toJson view).entries? = some entries ∧ m.tree view = String.join (entries.map Entry.line)) ∧
      (m.toJson .full).entries? = some (m.visits.map Visit.fullEntry) ∧
      (m.toJson .visible).entries? = some ((m.visits.filter Visit.isShown).map Visit.visibleEntry) ∧
      ((m.success = false → m.children = []) →
        ∀ v ∈ m.visits, v.visibleDepth = v.above.countP fun a => !a.hidden) := by
  refine ⟨?_, ?_, ?_, ?_⟩
  · intro view
    exact ⟨m.listing view, entries?_toJson view m, tree_eq_listing view m⟩
  · rw [entries?_toJson, listing_full]
  · rw [entries?_toJson, listing_visible]
  · intro hfailure v hv
    rw [visits, visitsFrom_eq] at hv
    rcases List.mem_cons.1 hv with rfl | hv
    · rfl
    · obtain ⟨between, hbetween⟩ := above_of_mem_visitsBelow m.children _ v hv
      have hsuccess : m.success = true := by
        cases hfailed : m.success with
        | true => rfl
        | false => simp [hfailure hfailed, visitsBelow] at hv
      simp [Visit.visibleDepth, hbetween, hsuccess]

def sevenDigit : Match := (leaf 0 "7").stamp ⟨some "Digit", false, .rule⟩

def sevenDigits : Match := ((empty 0).push sevenDigit).stamp ⟨none, false, .repetition⟩

def sevenNumber : Match := ((empty 0).push sevenDigits).stamp ⟨some "Number", false, .rule⟩

/-- A number and a sign behind it. -/
def sevenBang : Match :=
  (((empty 0).push sevenNumber).push ((leaf 1 "!").stamp ⟨none, false, .literal⟩)).stamp ⟨none, false, .sequence⟩

/-- The digit has three matches above it, of which the number alone is not hidden. So the tree has two lines, the second
of them one level in. -/
theorem sevenBang_list_visits : (sevenBang.success = false → sevenBang.children = []) ∧
    ⟨[sevenBang, sevenNumber, sevenDigits], sevenDigit⟩ ∈ sevenBang.visits ∧
      Visit.visibleDepth ⟨[sevenBang, sevenNumber, sevenDigits], sevenDigit⟩ = 1 ∧
      sevenBang.tree .visible = "Number \"7\" POSSIBLE 0..1\n  Digit \"7\" POSSIBLE 0..1\n" := by
  have hfailure : sevenBang.success = false → sevenBang.children = [] := fun h => nomatch h
  have hmem : ⟨[sevenBang, sevenNumber, sevenDigits], sevenDigit⟩ ∈ sevenBang.visits :=
    .tail _ (.tail _ (.tail _ (.head _)))
  obtain ⟨hwritten, _, hvisible, hdepth⟩ := written_forms_list_visits sevenBang
  obtain ⟨entries, hentries, htree⟩ := hwritten .visible
  obtain rfl := Option.some.inj (hentries.symm.trans hvisible)
  refine ⟨hfailure, hmem, ?_, ?_⟩
  · rw [hdepth hfailure _ hmem]
    rfl
  · rw [htree]
    decide +kernel

end Match

end Packrat
