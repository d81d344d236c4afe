import ScriptFront.Proofs.Printing.Reading

/-!
# Reading lists

Items of a list, pairs of a dict, members of an enumeration and parameters of a function are all
printed with commas between them, and an import among them brings commas of its own. So such a list
is read in two steps. First it is cut at all commas into segments, each an item with a label in
front or not (`append_cancel_segments`). Then the segments are put together again:

* for items, nothing is to be done (`append_cancel_items`);
* behind a labelled segment, those without a label that are no import belong to it
  (`append_cancel_pairs`);
* for parameters, which print the default of their name and may have none, the last segment with a
  label tells which default that is (`append_cancel_parameters`).
-/

namespace ScriptFront

open Lexeme

/-! ## Segments -/

/-- What stands between a label and its value. -/
inductive Mark where
  | colon
  | equals
deriving DecidableEq, Repr

/-- The characters of a mark. -/
def Mark.text : Mark → List Char
  | .colon => [':', ' ']
  | .equals => [' ', '=', ' ']

/-- A mark between a label and its value goes on with no expression. -/
theorem Mark.follow (mark : Mark) (rest : List Char) {place : Place} :
    Follow place (mark.text ++ rest) := by
  cases mark with
  | colon => exact follow_cons (by decide)
  | equals => exact follow_space_cons (by decide)

/-- What stands between two commas: an item, with a label in front or not. -/
structure Segment where
  /-- The label. -/
  label : Option Expr
  /-- The item. -/
  value : Expr

namespace Segment

/-- An item without a label. -/
def bare (e : Expr) : Segment :=
  ⟨none, e⟩

/-- The characters of a segment. -/
def text (mark : Mark) (s : Segment) : List Char :=
  match s.label with
  | none => s.value.text
  | some label => label.text ++ (mark.text ++ s.value.text)

/-- What is shown of a segment. -/
def shown (s : Segment) : Segment :=
  ⟨s.label.map Expr.shown, s.value.shown⟩

/-- Label and item are items that can be built from the tokens of a text. -/
def Lawful (s : Segment) : Prop :=
  ∀ e ∈ s.value :: s.label.toList, e.Lawful ∧ e.IsItem

/-- Label and item are read. -/
def Reads (s : Segment) : Prop :=
  ∀ e ∈ s.value :: s.label.toList, e.Reads ∧ e.IsItem

variable {s s' : Segment} {mark : Mark} {rest rest' : List Char}

/-- What stands behind a segment: no more of its item, and no mark. -/
structure Stops (mark : Mark) (rest : List Char) : Prop where
  follow : Follow .item rest
  unmarked : ∀ tail, rest ≠ mark.text ++ tail

/-- A segment is told from what stands behind it. -/
theorem append_cancel (hs : s.Reads) (hs' : s'.Lawful) (hrest : Stops mark rest)
    (hrest' : Stops mark rest') (h : s.text mark ++ rest = s'.text mark ++ rest') :
    s.shown = s'.shown ∧ rest = rest' := by
  obtain ⟨label, value⟩ := s
  obtain ⟨label', value'⟩ := s'
  obtain ⟨hreads, hitem⟩ := hs value List.mem_cons_self
  obtain ⟨hlawful, hitem'⟩ := hs' value' List.mem_cons_self
  cases label with
  | none =>
    cases label' with
    | none =>
      obtain ⟨hvalue, h⟩ := hreads hitem.fits hlawful hitem'.fits hrest.follow hrest'.follow h
      exact ⟨congrArg bare hvalue, h⟩
    | some label' =>
      obtain ⟨hlabel', hlitem'⟩ := hs' label' (by simp)
      simp only [text, List.append_assoc] at h
      obtain ⟨-, h⟩ := hreads hitem.fits hlabel' hlitem'.fits hrest.follow (mark.follow _) h
      exact absurd h (hrest.unmarked _)
  | some label =>
    obtain ⟨hlreads, hlitem⟩ := hs label (by simp)
    cases label' with
    | none =>
      simp only [text, List.append_assoc] at h
      obtain ⟨-, h⟩ := hlreads hlitem.fits hlawful hitem'.fits (mark.follow _) hrest'.follow h
      exact absurd h.symm (hrest'.unmarked _)
    | some label' =>
      obtain ⟨hlabel', hlitem'⟩ := hs' label' (by simp)
      simp only [text, List.append_assoc] at h
      obtain ⟨hlabel, h⟩ := hlreads.whole hlabel' (mark.follow _) (mark.follow _) h
      rw [List.append_cancel_left_eq] at h
      obtain ⟨hvalue, h⟩ := hreads hitem.fits hlawful hitem'.fits hrest.follow hrest'.follow h
      exact ⟨by simp [shown, hlabel, hvalue], h⟩

/-- A segment begins like an expression. -/
theorem Lawful.exists_opening (h : s.Lawful) :
    ∃ c tail, s.text mark = c :: tail ∧ Expr.opensExpr c = true := by
  obtain ⟨label, value⟩ := s
  cases label with
  | none => exact (h value List.mem_cons_self).1.exists_opening
  | some label =>
    obtain ⟨c, tail, htext, hc⟩ := (h label (by simp)).1.exists_opening
    exact ⟨c, tail ++ (mark.text ++ value.text), by simp [text, htext], hc⟩

end Segment

/-- What stands behind a list: no comma, no mark and no expression. -/
structure Closes (mark : Mark) (rest : List Char) : Prop where
  follow : Follow .whole rest
  unmarked : ∀ tail, rest ≠ mark.text ++ tail
  closing : ∀ c ∈ rest.head?, Expr.opensExpr c = false

/-- What goes on with no whole expression does so with no item of a list. -/
theorem Follow.of_whole {rest : List Char} (h : Follow .whole rest) {place : Place} :
    Follow place rest :=
  ⟨⟨h.toFollows, h.space, fun _ => h.comma rfl⟩, h.paren, h.point_point⟩

/-- A closing bracket closes a list. -/
theorem closes_cons {mark : Mark} {c : Char} {rest : List Char} (h : c ∈ [')', ']', '\x7d']) :
    Closes mark (c :: rest) := by
  simp only [List.mem_cons, List.not_mem_nil, or_false] at h
  constructor
  · rcases h with rfl | rfl | rfl <;> exact follow_cons (by decide)
  · rcases h with rfl | rfl | rfl <;> cases mark <;> simp [Mark.text]
  · rcases h with rfl | rfl | rfl <;> simp <;> decide

/-- A brace behind a space closes a list. -/
theorem closes_space {mark : Mark} {c : Char} {rest : List Char} (h : c ∈ ['\x7b', '\x7d']) :
    Closes mark (' ' :: c :: rest) := by
  simp only [List.mem_cons, List.not_mem_nil, or_false] at h
  constructor
  · rcases h with rfl | rfl <;> exact follow_space_cons (by decide)
  · rcases h with rfl | rfl <;> cases mark <;> simp [Mark.text]
  · simp
    decide

section Segments

variable {segments segments' : List Segment} {mark : Mark} {rest rest' : List Char}

/-- What closes a list ends its last segment. -/
theorem Closes.stops (h : Closes mark rest) : Segment.Stops mark rest :=
  ⟨h.follow.of_whole, h.unmarked⟩

/-- A list is cut at its commas in one way only. -/
theorem append_cancel_segments (hs : ∀ s ∈ segments, s.Reads) (hlawful : ∀ s ∈ segments, s.Lawful)
    (hs' : ∀ s ∈ segments', s.Lawful) (hrest : Closes mark rest) (hrest' : Closes mark rest')
    (h : commas (segments.map (Segment.text mark)) ++ rest =
      commas (segments'.map (Segment.text mark)) ++ rest') :
    segments.map Segment.shown = segments'.map Segment.shown ∧ rest = rest' := by
  have hcomma : ∀ tail, Segment.Stops mark ([',', ' '] ++ tail) := by
    refine fun tail => ⟨follow_comma, fun more heq => ?_⟩
    cases mark <;> simp [Mark.text] at heq
  have hend : ∀ {rest : List Char}, Closes mark rest → ∀ tail, rest ≠ [',', ' '] ++ tail := by
    rintro _ hrest tail rfl
    exact hrest.follow.comma rfl rfl
  have hopen : ∀ {s : Segment} {rest : List Char}, s.Lawful → Closes mark rest →
      ∀ tail, rest ≠ s.text mark ++ tail := by
    rintro s rest hs hrest tail rfl
    obtain ⟨c, more, htext, hc⟩ := hs.exists_opening
    have := hrest.closing c (by rw [htext]; rfl)
    rw [hc] at this
    cases this
  exact append_cancel_joined (Segment.Stops mark)
    (fun s hmem s' hmem' tail tail' => Segment.append_cancel (hs s hmem) (hs' s' hmem')) hcomma
    (hend hrest) (hend hrest') (fun s hmem => hopen (hs' s hmem) hrest)
    (fun s hmem => hopen (hlawful s hmem) hrest') hrest.stops hrest'.stops h

end Segments

/-! ## Items -/

section Items

variable {es es' : List Expr} {rest rest' : List Char}

/-- The items of a list as segments. -/
theorem commas_bare_items (mark : Mark) (es : List Expr) :
    commas (((es.flatMap Expr.items).map Segment.bare).map (Segment.text mark)) =
      commas (es.map Expr.text) := by
  rw [← Expr.commas_flatMap_items, List.map_map]
  rfl

/-- The items of lawful expressions are lawful segments. -/
theorem lawful_bare_items (h : ∀ e ∈ es, e.Lawful) :
    ∀ s ∈ (es.flatMap Expr.items).map Segment.bare, s.Lawful := by
  intro s hs
  obtain ⟨i, hi, rfl⟩ := List.mem_map.1 hs
  obtain ⟨e, he, hi⟩ := List.mem_flatMap.1 hi
  exact List.forall_mem_singleton.2 ((h e he).items i hi)

/-- The items of readable expressions are read as segments. -/
theorem reads_bare_items (h : ∀ e ∈ es, e.Readable) :
    ∀ s ∈ (es.flatMap Expr.items).map Segment.bare, s.Reads := by
  intro s hs
  obtain ⟨i, hi, rfl⟩ := List.mem_map.1 hs
  obtain ⟨e, he, hi⟩ := List.mem_flatMap.1 hi
  exact List.forall_mem_singleton.2
    ⟨((h e he).items i hi).reads, ((h e he).lawful.items i hi).2⟩

/-- The items of a list are told from each other and from what stands behind. -/
theorem append_cancel_items (h : ∀ e ∈ es, e.Readable) (h' : ∀ e ∈ es', e.Lawful)
    (hrest : ∀ mark, Closes mark rest) (hrest' : ∀ mark, Closes mark rest')
    (heq : commas (es.map Expr.text) ++ rest = commas (es'.map Expr.text) ++ rest') :
    Expr.shownEach es = Expr.shownEach es' ∧ rest = rest' := by
  rw [← commas_bare_items .colon, ← commas_bare_items .colon] at heq
  obtain ⟨hshown, heq⟩ := append_cancel_segments (reads_bare_items h)
    (lawful_bare_items fun e he => (h e he).lawful) (lawful_bare_items h') (hrest .colon)
    (hrest' .colon) heq
  refine ⟨?_, heq⟩
  have hvalues := congrArg (List.map Segment.value) hshown
  simp only [List.map_map] at hvalues
  rw [Expr.shownEach_eq, Expr.shownEach_eq]
  exact hvalues

end Items

/-! ## The items of an expression -/

namespace Expr

variable {e e' : Expr}

/-- No item behind the first name of an import is an import. -/
theorem isImport_itemsBehind (ls : List Link) (name : Identifier) (rest : List Identifier) :
    ∀ i ∈ itemsBehind ls name rest, i.head.isImport = false := by
  intro i hi
  obtain ⟨id, -, ls', -, rfl⟩ := mem_itemsBehind hi
  rw [head_foldl_link]
  rfl

/-- No item but the first is an import. -/
theorem isImport_of_mem_tail_items (e : Expr) : ∀ i ∈ e.items.tail, i.head.isImport = false := by
  rcases items_eq e with ⟨-, hitems⟩ | ⟨token, first, next, rest, -, hitems⟩
  · simp [hitems]
  · rw [hitems]
    exact isImport_itemsBehind e.links next rest

/-- The items behind the first name of an import tell the other names and what goes on. -/
theorem itemsBehind_inj {ls ls' : List Link} {name name' : Identifier}
    {rest rest' : List Identifier}
    (h : itemsBehind ls name rest = itemsBehind ls' name' rest') :
    ls = ls' ∧ name :: rest = name' :: rest' := by
  induction rest generalizing name name' rest' with
  | nil =>
    cases rest' with
    | nil =>
      have hlast := List.singleton_inj.1 h
      have hhead := congrArg head hlast
      have hlinks := congrArg links hlast
      rw [head_foldl_link, head_foldl_link] at hhead
      rw [links_foldl_link, links_foldl_link] at hlinks
      exact ⟨hlinks, by rw [Expr.identifier.inj hhead]⟩
    | cons next' rest' => exact absurd (List.cons.inj h).2.symm (itemsBehind_ne_nil ls' next' rest')
  | cons next rest ih =>
    cases rest' with
    | nil => exact absurd (List.cons.inj h).2 (itemsBehind_ne_nil ls next rest)
    | cons next' rest' =>
      obtain ⟨hname, hrest⟩ := List.cons.inj h
      obtain ⟨hls, hnames⟩ := ih hrest
      exact ⟨hls, by rw [Expr.identifier.inj hname, hnames]⟩

/-- What is shown of an expression is put together of its own head and links. -/
theorem shown_eq_foldl (e : Expr) : e.shown = e.shown.links.foldl link e.shown.head := by
  rw [links_shown, head_shown, ← shown_eq_head_links]

/-- The items that are shown of an expression show all that is shown of it. -/
theorem shown_eq_of_items (h : e.shown.items = e'.shown.items) : e.shown = e'.shown := by
  rcases items_eq e.shown with ⟨-, hitems⟩ | ⟨token, first, next, rest, hhead, hitems⟩ <;>
    rcases items_eq e'.shown with ⟨-, hitems'⟩ | ⟨token', first', next', rest', hhead', hitems'⟩ <;>
    rw [hitems, hitems'] at h
  · exact List.singleton_inj.1 h
  · exact absurd (List.cons.inj h).2.symm (itemsBehind_ne_nil _ next' rest')
  · exact absurd (List.cons.inj h).2 (itemsBehind_ne_nil _ next rest)
  · obtain ⟨hfirst, hbehind⟩ := List.cons.inj h
    obtain ⟨htoken, hname⟩ := Expr.importing.inj hfirst
    obtain ⟨hls, hnames⟩ := itemsBehind_inj hbehind
    rw [shown_eq_foldl e, shown_eq_foldl e', hls, hhead, hhead', htoken, hnames,
      List.singleton_inj.1 hname]

end Expr

/-! ## Pairs -/

namespace Segment

variable {labels labels' values values' : List Expr} {rest rest' : List Segment}

/-- The segments of a label and a value, each given by its items: the mark stands between the last
item of the one and the first of the other. -/
def labelled (labels values : List Expr) : List Segment :=
  labels.dropLast.map bare ++
    match values with
    | [] => []
    | value :: values => ⟨labels.getLast?, value⟩ :: values.map bare

/-- The mark stands between the last label and the first value. -/
theorem labelled_concat (labels : List Expr) (label value : Expr) (values : List Expr) :
    labelled (labels ++ [label]) (value :: values) =
      labels.map bare ++ ⟨some label, value⟩ :: values.map bare := by
  simp [labelled]

/-- What is shown of labelled segments is labelled with what is shown of the labels. -/
theorem map_shown_labelled (labels values : List Expr) :
    (labelled labels values).map shown =
      labelled (labels.map Expr.shown) (values.map Expr.shown) := by
  cases values with
  | nil => simp [labelled, bare, shown, Function.comp_def]
  | cons value values => simp [labelled, bare, shown, Function.comp_def]

/-- The segments of a label and a value are printed with the mark between them. -/
theorem commas_labelled (mark : Mark) (key value : Expr) :
    commas ((labelled key.items value.items).map (text mark)) =
      key.text ++ (mark.text ++ value.text) := by
  obtain ⟨v, vs, hvalue⟩ := List.exists_cons_of_ne_nil value.items_ne_nil
  obtain ⟨ks, k, hkey⟩ : ∃ ks k, key.items = ks ++ [k] :=
    ⟨_, _, (List.dropLast_concat_getLast key.items_ne_nil).symm⟩
  rw [← key.commas_items, ← value.commas_items, hkey, hvalue, labelled_concat]
  cases ks <;> simp [commas, text, bare, Function.comp_def]

/-- The segment belongs to the label before it: it has none of its own and is no import. -/
def continues (s : Segment) : Bool :=
  s.label.isNone && !s.value.head.isImport

/-- A label and a value are told from the segments behind them, if those begin anew. -/
theorem append_cancel_labelled (hlabels : labels ≠ []) (hlabels' : labels' ≠ [])
    (hvalues : values ≠ []) (hvalues' : values' ≠ [])
    (htail : ∀ v ∈ values.tail, v.head.isImport = false)
    (htail' : ∀ v ∈ values'.tail, v.head.isImport = false)
    (hrest : ∀ s ∈ rest.head?, s.continues = false)
    (hrest' : ∀ s ∈ rest'.head?, s.continues = false)
    (h : labelled labels values ++ rest = labelled labels' values' ++ rest') :
    labels = labels' ∧ values = values' ∧ rest = rest' := by
  obtain ⟨value, values, rfl⟩ := List.exists_cons_of_ne_nil hvalues
  obtain ⟨value', values', rfl⟩ := List.exists_cons_of_ne_nil hvalues'
  have hbare : ∀ (es : List Expr), ∀ s ∈ es.map bare, s.label.isNone = true := by simp [bare]
  have hsome : ∀ {es : List Expr} {value : Expr} {more : List Segment}, es ≠ [] →
      ∀ s ∈ (Segment.mk es.getLast? value :: more).head?, s.label.isNone = false := by
    intro es value more hne
    simpa using hne
  have hinj : ∀ {es es' : List Expr}, es.map bare = es'.map bare → es = es' :=
    fun heq => List.map_injective_iff.2 (fun _ _ heq => (Segment.mk.inj heq).2) heq
  simp only [labelled, List.append_assoc, List.cons_append] at h
  -- the first segment with a label is where the label ends and the value begins
  obtain ⟨hfront, h⟩ := append_cancel_runs (hbare _) (hbare _) (hsome hlabels) (hsome hlabels') h
  obtain ⟨hmiddle, h⟩ := List.cons.inj h
  obtain ⟨hlast, hvalue⟩ := Segment.mk.inj hmiddle
  have hcontinues : ∀ {es : List Expr}, (∀ v ∈ es, v.head.isImport = false) →
      ∀ s ∈ es.map bare, s.continues = true := by
    intro es hes s hs
    obtain ⟨v, hv, rfl⟩ := List.mem_map.1 hs
    simp [continues, bare, hes v hv]
  obtain ⟨hvalues, h⟩ :=
    append_cancel_runs (hcontinues htail) (hcontinues htail') hrest hrest' h
  refine ⟨?_, congrArg₂ List.cons hvalue (hinj hvalues), h⟩
  rw [← List.dropLast_concat_getLast hlabels, ← List.dropLast_concat_getLast hlabels', hinj hfront]
  rw [List.getLast?_eq_some_getLast hlabels, List.getLast?_eq_some_getLast hlabels',
    Option.some.injEq] at hlast
  rw [hlast]

/-- What holds of all items of label and value holds in all their segments. -/
theorem forall_mem_labelled {p : Expr → Prop} (hlabels : ∀ e ∈ labels, p e)
    (hvalues : ∀ e ∈ values, p e) :
    ∀ s ∈ labelled labels values, ∀ e ∈ s.value :: s.label.toList, p e := by
  have hbare : ∀ {es : List Expr}, (∀ e ∈ es, p e) →
      ∀ s ∈ es.map bare, ∀ e ∈ s.value :: s.label.toList, p e := by
    intro es hes s hs
    obtain ⟨e, he, rfl⟩ := List.mem_map.1 hs
    exact List.forall_mem_singleton.2 (hes e he)
  unfold labelled
  rw [List.forall_mem_append]
  refine ⟨hbare fun e he => hlabels e (List.mem_of_mem_dropLast he), ?_⟩
  cases values with
  | nil => simp
  | cons value values =>
    rw [List.forall_mem_cons] at hvalues ⊢
    refine ⟨?_, hbare hvalues.2⟩
    rw [List.forall_mem_cons]
    refine ⟨hvalues.1, fun e he => hlabels e ?_⟩
    exact List.mem_of_getLast? (Option.mem_toList.1 he)

/-- The segments of pairs of a label and a value. -/
def ofPairs (pairs : List (Expr × Expr)) : List Segment :=
  pairs.flatMap fun pair => labelled pair.1.items pair.2.items

/-- A label and a value have a segment at least. -/
theorem labelled_items_ne_nil (key value : Expr) : labelled key.items value.items ≠ [] := by
  obtain ⟨v, vs, hvalue⟩ := List.exists_cons_of_ne_nil value.items_ne_nil
  simp [labelled, hvalue]

/-- Every pair begins anew. -/
theorem continues_head_ofPairs (pairs : List (Expr × Expr)) :
    ∀ s ∈ (ofPairs pairs).head?, s.continues = false := by
  cases pairs with
  | nil => simp [ofPairs]
  | cons pair pairs =>
    obtain ⟨key, value⟩ := pair
    obtain ⟨v, vs, hvalue⟩ := List.exists_cons_of_ne_nil value.items_ne_nil
    rcases Expr.items_eq key with hitems | ⟨token, first, next, rest, -, hitems⟩
    · simp [ofPairs, labelled, hitems, hvalue, continues]
    · have hdrop : (Expr.importing token [first] :: Expr.itemsBehind key.links next rest).dropLast =
          Expr.importing token [first] :: (Expr.itemsBehind key.links next rest).dropLast :=
        List.dropLast_cons_of_ne_nil (Expr.itemsBehind_ne_nil _ _ _)
      rw [ofPairs, List.flatMap_cons, hitems]
      unfold labelled
      rw [hdrop]
      simp [continues, bare, Expr.head, Expr.isImport]

/-- What is shown of a pair. -/
def shownPair (pair : Expr × Expr) : Expr × Expr :=
  (pair.1.shown, pair.2.shown)

/-- What is shown of the segments of pairs are the segments of what is shown of the pairs. -/
theorem map_shown_ofPairs (pairs : List (Expr × Expr)) :
    (ofPairs pairs).map shown = ofPairs (pairs.map shownPair) := by
  simp only [ofPairs, List.map_flatMap, List.flatMap_map, map_shown_labelled, Expr.map_shown_items,
    shownPair]

/-- Pairs are told by their segments, as far as they are shown. -/
theorem ofPairs_inj {pairs pairs' : List (Expr × Expr)}
    (h : (ofPairs pairs).map shown = (ofPairs pairs').map shown) :
    pairs.map shownPair = pairs'.map shownPair := by
  rw [map_shown_ofPairs, map_shown_ofPairs] at h
  induction pairs generalizing pairs' with
  | nil =>
    cases pairs' with
    | nil => rfl
    | cons pair' pairs' =>
      simp only [ofPairs, List.map_nil, List.flatMap_nil, List.map_cons, List.flatMap_cons] at h
      exact absurd (List.append_eq_nil_iff.1 h.symm).1 (labelled_items_ne_nil _ _)
  | cons pair pairs ih =>
    cases pairs' with
    | nil =>
      simp only [ofPairs, List.map_nil, List.flatMap_nil, List.map_cons, List.flatMap_cons] at h
      exact absurd (List.append_eq_nil_iff.1 h).1 (labelled_items_ne_nil _ _)
    | cons pair' pairs' =>
      obtain ⟨hkey, hvalue, h⟩ := append_cancel_labelled (Expr.items_ne_nil _) (Expr.items_ne_nil _)
        (Expr.items_ne_nil _) (Expr.items_ne_nil _) (Expr.isImport_of_mem_tail_items _)
        (Expr.isImport_of_mem_tail_items _) (continues_head_ofPairs (pairs.map shownPair))
        (continues_head_ofPairs (pairs'.map shownPair)) h
      rw [List.map_cons, List.map_cons, ih h]
      exact congrArg (· :: _)
        (Prod.ext (Expr.shown_eq_of_items hkey) (Expr.shown_eq_of_items hvalue))

end Segment

section Pairs

variable {pairs pairs' : List (Expr × Expr)} {mark : Mark} {rest rest' : List Char}

/-- The segments of pairs are printed like the pairs. -/
theorem commas_ofPairs (mark : Mark) (pairs : List (Expr × Expr)) :
    commas ((Segment.ofPairs pairs).map (Segment.text mark)) =
      commas (pairs.map fun pair => pair.1.text ++ (mark.text ++ pair.2.text)) := by
  rw [Segment.ofPairs, List.map_flatMap]
  apply Text.joined_flatMap (by simp)
  · intro pair _
    simpa using Segment.labelled_items_ne_nil pair.1 pair.2
  · exact fun pair _ => Segment.commas_labelled mark pair.1 pair.2

/-- Pairs of a label and a value are told from each other and from what stands behind. -/
theorem append_cancel_pairs (h : ∀ pair ∈ pairs, pair.1.Readable ∧ pair.2.Readable)
    (h' : ∀ pair ∈ pairs', pair.1.Lawful ∧ pair.2.Lawful) (hrest : Closes mark rest)
    (hrest' : Closes mark rest')
    (heq : commas (pairs.map fun pair => pair.1.text ++ (mark.text ++ pair.2.text)) ++ rest =
      commas (pairs'.map fun pair => pair.1.text ++ (mark.text ++ pair.2.text)) ++ rest') :
    pairs.map Segment.shownPair = pairs'.map Segment.shownPair ∧ rest = rest' := by
  have hforall : ∀ {pairs : List (Expr × Expr)} {p : Expr → Prop},
      (∀ pair ∈ pairs, (∀ i ∈ pair.1.items, p i) ∧ ∀ i ∈ pair.2.items, p i) →
      ∀ s ∈ Segment.ofPairs pairs, ∀ e ∈ s.value :: s.label.toList, p e := by
    intro pairs p hp s hs
    obtain ⟨pair, hpair, hs⟩ := List.mem_flatMap.1 hs
    exact Segment.forall_mem_labelled (hp pair hpair).1 (hp pair hpair).2 s hs
  have hlawful : ∀ {pairs : List (Expr × Expr)}, (∀ pair ∈ pairs, pair.1.Lawful ∧ pair.2.Lawful) →
      ∀ s ∈ Segment.ofPairs pairs, s.Lawful :=
    fun hpairs => hforall fun pair hpair => ⟨(hpairs pair hpair).1.items,
      (hpairs pair hpair).2.items⟩
  have hreads : ∀ {e : Expr}, e.Readable → ∀ i ∈ e.items, i.Reads ∧ i.IsItem :=
    fun he i hi => ⟨(he.items i hi).reads, (he.lawful.items i hi).2⟩
  rw [← commas_ofPairs, ← commas_ofPairs] at heq
  obtain ⟨hshown, heq⟩ := append_cancel_segments
    (hforall fun pair hpair => ⟨hreads (h pair hpair).1, hreads (h pair hpair).2⟩)
    (hlawful fun pair hpair => ⟨(h pair hpair).1.lawful, (h pair hpair).2.lawful⟩)
    (hlawful h') hrest hrest' heq
  exact ⟨Segment.ofPairs_inj hshown, heq⟩

end Pairs

end ScriptFront
