import Mathlib.Data.List.Perm.Basic
import ScriptFront.Proofs.Printing.Lists

/-!
# Reading parameters

A parameter is printed with the default of its name, also where an earlier parameter of that name
was declared without one; and one without a default looks like a name that goes on with an import
before it. What tells them apart is the last parameter of a name with a default: behind it, all have
one.

* `Segment.ofParameter` — the segments of a parameter.
* `shown_default_eq` — parameters with the same segments have the same defaults.
* `append_cancel_parameters` — parameters and their defaults are told from what stands behind.
-/

namespace ScriptFront

open Lexeme

/-- A name as an expression, without a token. -/
def nameExpr (name : String) : Expr :=
  .identifier ⟨default, name⟩

namespace Segment

variable {find find' : String → Option Expr} {name : String} {names names' : List String}
  {value value' : Expr} {s : Segment}

/-- What is shown of the segments of a parameter, with the default of its name. -/
def ofParameter (find : String → Option Expr) (name : String) : List Segment :=
  match find name with
  | none => [bare (nameExpr name)]
  | some value => labelled [nameExpr name] value.shown.items

/-- A parameter without a default has one segment, its name. -/
theorem ofParameter_of_none (h : find name = none) :
    ofParameter find name = [bare (nameExpr name)] := by
  simp [ofParameter, h]

/-- A parameter with a default has its name as the label of the first item of the default. -/
theorem ofParameter_of_some (h : find name = some value) :
    ∃ v vs, value.shown.items = v :: vs ∧
      ofParameter find name = ⟨some (nameExpr name), v⟩ :: vs.map bare := by
  obtain ⟨v, vs, hitems⟩ := List.exists_cons_of_ne_nil value.shown.items_ne_nil
  exact ⟨v, vs, hitems, by simp [ofParameter, h, hitems, labelled]⟩

/-- The name that is the label of a segment. -/
def labelName? (s : Segment) : Option String :=
  match s.label with
  | some (.identifier id) => some id.name
  | _ => none

/-- Items without a label have no label. -/
theorem labelName?_of_mem_map_bare {es : List Expr} (h : s ∈ es.map bare) :
    s.labelName? = none := by
  obtain ⟨e, -, rfl⟩ := List.mem_map.1 h
  rfl

/-- A label is the name of a parameter with a default. -/
theorem find_of_labelName? (h : s ∈ ofParameter find name) {other : String}
    (hlabel : s.labelName? = some other) : other = name ∧ ∃ value, find name = some value := by
  cases hfind : find name with
  | none =>
    rw [ofParameter_of_none hfind, List.mem_singleton] at h
    subst h
    cases hlabel
  | some value =>
    obtain ⟨v, vs, -, hsegments⟩ := ofParameter_of_some hfind
    rw [hsegments, List.mem_cons] at h
    rcases h with rfl | h
    · exact ⟨(Option.some.inj hlabel).symm, value, rfl⟩
    · rw [labelName?_of_mem_map_bare h] at hlabel
      cases hlabel

/-- Behind the last parameter of a name with a default, every parameter has one. -/
def LastFit (find : String → Option Expr) (names : List String) : Prop :=
  ∀ before name after, names = before ++ name :: after → (find name).isSome → name ∉ after →
    ∀ later ∈ after, (find later).isSome

/-- A name that is there is there for a last time. -/
theorem exists_last {names : List String} (h : name ∈ names) :
    ∃ before after, names = before ++ name :: after ∧ name ∉ after := by
  obtain ⟨after, before, hsplit, hnone⟩ := List.eq_append_cons_of_mem (List.mem_reverse.2 h)
  refine ⟨before.reverse, after.reverse, ?_, by simpa using hnone⟩
  rw [← List.reverse_reverse names, hsplit]
  simp

/-- The segments of parameters that all have a default begin with a label. -/
theorem isSome_label_head (h : ∀ name ∈ names, (find name).isSome) :
    ∀ s ∈ (names.flatMap (ofParameter find)).head?, s.label.isNone = false := by
  cases names with
  | nil => simp
  | cons name names =>
    obtain ⟨value, hvalue⟩ := Option.isSome_iff_exists.1 (h name List.mem_cons_self)
    obtain ⟨v, vs, -, hsegments⟩ := ofParameter_of_some hvalue
    simp [hsegments]

/-- Where a name with a default comes last among the parameters, its label comes last among the
segments, and the segments of its default are those up to the next label. -/
theorem exists_last_label (hfit : LastFit find names) (hname : name ∈ names)
    (hvalue : find name = some value) :
    ∃ before v vs after, value.shown.items = v :: vs ∧
      names.flatMap (ofParameter find) =
        before ++ ⟨some (nameExpr name), v⟩ :: (vs.map bare ++ after) ∧
      (∀ s ∈ vs.map bare ++ after, s.labelName? ≠ some name) ∧
      ∀ s ∈ after.head?, s.label.isNone = false := by
  obtain ⟨before, after, rfl, hlast⟩ := exists_last hname
  obtain ⟨v, vs, hitems, hsegments⟩ := ofParameter_of_some hvalue
  refine ⟨before.flatMap (ofParameter find), v, vs, after.flatMap (ofParameter find),
    hitems, ?_, ?_,
    isSome_label_head (hfit before name after rfl (by simp [hvalue]) hlast)⟩
  · simp [hsegments]
  · intro s hs hlabel
    rcases List.mem_append.1 hs with hs | hs
    · rw [labelName?_of_mem_map_bare hs] at hlabel
      cases hlabel
    · obtain ⟨later, hlater, hs⟩ := List.mem_flatMap.1 hs
      rw [(find_of_labelName? hs hlabel).1] at hlast
      exact hlast hlater

/-- Parameters with the same segments have the same default for a name. -/
theorem shown_default_eq (hfit : LastFit find names) (hfit' : LastFit find' names')
    (h : names.flatMap (ofParameter find) = names'.flatMap (ofParameter find'))
    (hname : name ∈ names) (hvalue : find name = some value) :
    ∃ value', find' name = some value' ∧ value.shown = value'.shown := by
  obtain ⟨before, v, vs, after, hitems, hsplit, hbehind, hafter⟩ :=
    exists_last_label hfit hname hvalue
  obtain ⟨name', hname', hs'⟩ := List.mem_flatMap.1
    (show (⟨some (nameExpr name), v⟩ : Segment) ∈ names'.flatMap (ofParameter find') by
      rw [← h, hsplit]
      simp)
  obtain ⟨rfl, value', hvalue'⟩ := find_of_labelName? hs' rfl
  obtain ⟨before', v', vs', after', hitems', hsplit', hbehind', hafter'⟩ :=
    exists_last_label hfit' hname' hvalue'
  refine ⟨value', hvalue', Expr.shown_eq_of_items ?_⟩
  rw [h, hsplit'] at hsplit
  -- read from the end, the label is the first one of the name on both sides
  have hreverse := congrArg List.reverse hsplit
  simp only [List.reverse_append, List.reverse_cons, List.append_assoc, List.singleton_append]
    at hreverse
  rw [← List.append_assoc, ← List.append_assoc, ← List.reverse_append, ← List.reverse_append]
    at hreverse
  have hother : ∀ {segments : List Segment}, (∀ s ∈ segments, s.labelName? ≠ some name) →
      ∀ s ∈ segments.reverse, (s.labelName? != some name) = true := by
    intro segments hsegments s hs
    simpa using hsegments s (List.mem_reverse.1 hs)
  have hthis : ∀ (v : Expr) (more : List Segment),
      ∀ s ∈ ((⟨some (nameExpr name), v⟩ : Segment) :: more).head?,
        (s.labelName? != some name) = false := by
    simp [labelName?, nameExpr]
  obtain ⟨hsame, hrest⟩ := append_cancel_runs (hother hbehind') (hother hbehind) (hthis _ _)
    (hthis _ _) hreverse
  obtain ⟨hvs, -⟩ := append_cancel_runs (by simp [bare]) (by simp [bare]) hafter' hafter
    (List.reverse_injective hsame)
  rw [hitems, hitems', (Segment.mk.inj (List.cons.inj hrest).1).2,
    List.map_injective_iff.2 (fun _ _ heq => (Segment.mk.inj heq).2) hvs]

/-- Only what is shown of the default matters. -/
theorem ofParameter_congr (h : (find name).map Expr.shown = (find' name).map Expr.shown) :
    ofParameter find name = ofParameter find' name := by
  unfold ofParameter
  cases hfind : find name <;> cases hfind' : find' name <;> simp_all

/-- The segments of a parameter begin with its name. -/
theorem exists_ofParameter_eq (find : String → Option Expr) (name : String) :
    ∃ s more, ofParameter find name = s :: more ∧ s.label.getD s.value = nameExpr name := by
  cases hfind : find name with
  | none => exact ⟨_, _, ofParameter_of_none hfind, rfl⟩
  | some value =>
    obtain ⟨v, vs, -, hsegments⟩ := ofParameter_of_some hfind
    exact ⟨_, _, hsegments, rfl⟩

/-- With the same defaults, parameters with the same segments have the same names. -/
theorem names_eq (h : names.flatMap (ofParameter find) = names'.flatMap (ofParameter find)) :
    names = names' := by
  induction names generalizing names' with
  | nil =>
    cases names' with
    | nil => rfl
    | cons name' names' =>
      obtain ⟨s', more', hsegments', -⟩ := exists_ofParameter_eq find name'
      simp [hsegments'] at h
  | cons name names ih =>
    obtain ⟨s, more, hsegments, hname⟩ := exists_ofParameter_eq find name
    cases names' with
    | nil => simp [hsegments] at h
    | cons name' names' =>
      obtain ⟨s', more', hsegments', hname'⟩ := exists_ofParameter_eq find name'
      have hsame : name = name' := by
        rw [List.flatMap_cons, List.flatMap_cons, hsegments, hsegments'] at h
        rw [(List.cons.inj h).1, hname'] at hname
        exact (Identifier.mk.inj (Expr.identifier.inj hname)).2.symm
      subst hsame
      rw [List.flatMap_cons, List.flatMap_cons, List.append_cancel_left_eq] at h
      rw [ih h]

end Segment

/-! ## Defaults -/

namespace Defaults

variable {defaults defaults' : Defaults} {name : String}

/-- What is shown of the defaults of a function. -/
def shown (defaults : Defaults) : Defaults :=
  defaults.map fun entry => (entry.1, entry.2.shown)

/-- What is shown of the defaults has what is shown of each under its name. -/
theorem find?_shown (defaults : Defaults) (name : String) :
    defaults.shown.find? name = (defaults.find? name).map Expr.shown := by
  induction defaults with
  | nil => rfl
  | cons entry defaults ih =>
    rw [shown, List.map_cons, find?_cons, find?_cons, ← shown, ih]
    by_cases h : name = entry.1 <;> simp [h]

/-- A name has a default if it is one of the keys. -/
theorem isSome_find? : (defaults.find? name).isSome ↔ name ∈ defaults.keys := by
  induction defaults with
  | nil => simp [find?, keys]
  | cons entry defaults ih =>
    rw [find?_cons, keys, List.map_cons, List.mem_cons]
    by_cases h : name = entry.1
    · simp [h]
    · simpa [h] using ih

/-- In the order of the names, each default is found under its own. -/
theorem find?_eq_some_of_mem {entry : String × Expr} (hsorted : defaults.keys.Pairwise (· < ·))
    (h : entry ∈ defaults) : defaults.find? entry.1 = some entry.2 := by
  obtain ⟨before, after, rfl⟩ := List.append_of_mem h
  refine List.lookup_eq_some_iff.2 ⟨before, after, rfl, fun other hother => ?_⟩
  rw [keys, List.map_append, List.pairwise_append] at hsorted
  have hless := hsorted.2.2 other.1 (List.mem_map_of_mem hother) entry.1 (by simp)
  simpa using (String.ne_of_lt hless).symm

/-- Defaults in the order of the names are told by what is found in them. -/
theorem eq_of_find? (hsorted : defaults.keys.Pairwise (· < ·))
    (hsorted' : defaults'.keys.Pairwise (· < ·))
    (h : ∀ name, defaults.find? name = defaults'.find? name) : defaults = defaults' := by
  have hmem : ∀ {d : Defaults}, d.keys.Pairwise (· < ·) →
      ∀ entry, entry ∈ d ↔ d.find? entry.1 = some entry.2 := by
    intro d hd entry
    refine ⟨find?_eq_some_of_mem hd, fun hfind => ?_⟩
    obtain ⟨before, after, hsplit, -⟩ := List.lookup_eq_some_iff.1 hfind
    rw [hsplit]
    simp
  have hpairwise : ∀ {d : Defaults}, d.keys.Pairwise (· < ·) → d.Pairwise fun a b => a.1 < b.1 :=
    fun hd => List.pairwise_map.1 hd
  have hnodup : ∀ {d : Defaults}, d.keys.Pairwise (· < ·) → d.Nodup := by
    intro d hd
    refine (hpairwise hd).imp fun hlt heq => ?_
    rw [heq] at hlt
    exact String.lt_irrefl _ hlt
  have hperm : defaults.Perm defaults' := by
    rw [List.perm_ext_iff_of_nodup (hnodup hsorted) (hnodup hsorted')]
    intro entry
    rw [hmem hsorted, hmem hsorted', h]
  refine hperm.eq_of_pairwise (fun a b _ _ hab hba => ?_) (hpairwise hsorted) (hpairwise hsorted')
  exact absurd (String.lt_trans hab hba) (String.lt_irrefl _)

end Defaults

/-- Behind the last parameter of a name with a default, every parameter has one, if the defaults
fit. -/
theorem DefaultsFit.lastFit {parameters : List Identifier} {defaults : Defaults}
    (h : DefaultsFit parameters defaults) :
    Segment.LastFit defaults.find? (parameters.map Identifier.name) := by
  intro before name after hsplit hfound hlast later hlater
  obtain ⟨before, rest, rfl, rfl, hrest⟩ := List.map_eq_append_iff.1 hsplit
  obtain ⟨id, after, rfl, rfl, rfl⟩ := List.map_eq_cons_iff.1 hrest
  obtain ⟨other, hother, rfl⟩ := List.mem_map.1 hlater
  rw [Defaults.isSome_find?] at hfound ⊢
  exact h.last before id after rfl hfound hlast other hother

section Parameters

variable {ids ids' : List Identifier} {defaults defaults' : Defaults} {rest rest' : List Char}

/-- The segments of a parameter. -/
def Defaults.segments (defaults : Defaults) (id : Identifier) : List Segment :=
  match defaults.find? id.name with
  | none => [.bare (.identifier id)]
  | some value => Segment.labelled [.identifier id] value.items

/-- What is shown of the segments of a parameter is known from the defaults. -/
theorem Defaults.map_shown_segments (defaults : Defaults) (id : Identifier) :
    (defaults.segments id).map Segment.shown = Segment.ofParameter defaults.find? id.name := by
  unfold segments Segment.ofParameter
  cases defaults.find? id.name with
  | none => rfl
  | some value =>
    rw [Segment.map_shown_labelled, Expr.map_shown_items]
    rfl

/-- The segments of parameters are printed like the parameters. -/
theorem Defaults.commas_segments (defaults : Defaults) (ids : List Identifier) :
    commas ((ids.flatMap defaults.segments).map (Segment.text .equals)) =
      commas (ids.map defaults.parameterText) := by
  rw [List.map_flatMap]
  apply Text.joined_flatMap (by simp)
  · intro id _
    unfold segments
    cases defaults.find? id.name with
    | none => simp
    | some value =>
      exact fun hnil =>
        Segment.labelled_items_ne_nil (.identifier id) value (List.map_eq_nil_iff.1 hnil)
  · intro id _
    unfold segments parameterText
    cases defaults.find? id.name with
    | none => simp [Segment.text, Segment.bare]
    | some value => exact Segment.commas_labelled .equals (.identifier id) value

/-- What holds of all names and of the items of all defaults holds in all segments. -/
theorem Defaults.forall_mem_segments {p : Expr → Prop} (hids : ∀ id ∈ ids, p (.identifier id))
    (hvalues : ∀ entry ∈ defaults, ∀ i ∈ entry.2.items, p i) :
    ∀ s ∈ ids.flatMap defaults.segments, ∀ e ∈ s.value :: s.label.toList, p e := by
  intro s hs
  obtain ⟨id, hid, hs⟩ := List.mem_flatMap.1 hs
  unfold segments at hs
  split at hs
  · rw [List.mem_singleton] at hs
    subst hs
    exact List.forall_mem_singleton.2 (hids id hid)
  · next value hfind =>
    obtain ⟨before, after, hsplit, -⟩ := List.lookup_eq_some_iff.1 hfind
    exact Segment.forall_mem_labelled (List.forall_mem_singleton.2 (hids id hid))
      (hvalues (id.name, value) (by simp [hsplit])) s hs

/-- Parameters with the same segments have the same defaults. -/
theorem DefaultsFit.map_shown_find? (hfit : DefaultsFit ids defaults)
    (hfit' : DefaultsFit ids' defaults')
    (h : (ids.map Identifier.name).flatMap (Segment.ofParameter defaults.find?) =
      (ids'.map Identifier.name).flatMap (Segment.ofParameter defaults'.find?)) (name : String) :
    (defaults.find? name).map Expr.shown = (defaults'.find? name).map Expr.shown := by
  have hdeclared : ∀ {ids : List Identifier} {defaults : Defaults} {value : Expr},
      DefaultsFit ids defaults → defaults.find? name = some value →
        name ∈ ids.map Identifier.name :=
    fun hfit hfind => hfit.declared name (Defaults.isSome_find?.1 (by simp [hfind]))
  cases hfind : defaults.find? name with
  | some value =>
    obtain ⟨value', hfind', hvalue⟩ :=
      Segment.shown_default_eq hfit.lastFit hfit'.lastFit h (hdeclared hfit hfind) hfind
    simp [hfind', hvalue]
  | none =>
    cases hfind' : defaults'.find? name with
    | none => rfl
    | some value' =>
      obtain ⟨value, hvalue, -⟩ :=
        Segment.shown_default_eq hfit'.lastFit hfit.lastFit h.symm (hdeclared hfit' hfind') hfind'
      simp [hfind] at hvalue

/-- Parameters and their defaults are told from what stands behind. -/
theorem append_cancel_parameters (hids : ∀ id ∈ ids, spelledLaw.name id)
    (hids' : ∀ id ∈ ids', spelledLaw.name id) (hdefaults : ∀ entry ∈ defaults, entry.2.Readable)
    (hdefaults' : ∀ entry ∈ defaults', entry.2.Lawful) (hfit : DefaultsFit ids defaults)
    (hfit' : DefaultsFit ids' defaults') (hrest : Closes .equals rest)
    (hrest' : Closes .equals rest')
    (h : commas (ids.map defaults.parameterText) ++ rest =
      commas (ids'.map defaults'.parameterText) ++ rest') :
    ids.map Identifier.name = ids'.map Identifier.name ∧ defaults.shown = defaults'.shown ∧
      rest = rest' := by
  have hlawful : ∀ {ids : List Identifier}, (∀ id ∈ ids, spelledLaw.name id) →
      ∀ id ∈ ids, (Expr.identifier id).Lawful ∧ (Expr.identifier id).IsItem :=
    fun hids id hid => ⟨⟨.operand, Expr.lawful_identifier (hids id hid) .operand⟩,
      Expr.isItem_foldl_identifier [] id⟩
  have hreads : ∀ id ∈ ids, (Expr.identifier id).Reads ∧ (Expr.identifier id).IsItem := by
    intro id hid
    obtain ⟨hid, hitem⟩ := hlawful hids id hid
    exact ⟨Expr.reads_of_head_links hid (Expr.headReads_identifier hid)
      (by simp [Expr.links]), hitem⟩
  rw [← defaults.commas_segments, ← defaults'.commas_segments] at h
  obtain ⟨hshown, h⟩ := append_cancel_segments
    (Defaults.forall_mem_segments hreads fun entry hentry i hi =>
      ⟨((hdefaults entry hentry).items i hi).reads, ((hdefaults entry hentry).lawful.items i hi).2⟩)
    (Defaults.forall_mem_segments (hlawful hids) fun entry hentry =>
      (hdefaults entry hentry).lawful.items)
    (Defaults.forall_mem_segments (hlawful hids') fun entry hentry =>
      (hdefaults' entry hentry).items)
    hrest hrest' h
  have hsegments : (ids.map Identifier.name).flatMap (Segment.ofParameter defaults.find?) =
      (ids'.map Identifier.name).flatMap (Segment.ofParameter defaults'.find?) := by
    simpa only [List.map_flatMap, List.flatMap_map, Defaults.map_shown_segments] using hshown
  have hfind := hfit.map_shown_find? hfit' hsegments
  have hsame : Segment.ofParameter defaults'.find? = Segment.ofParameter defaults.find? :=
    funext fun name => Segment.ofParameter_congr (hfind name).symm
  rw [hsame] at hsegments
  have hkeys : ∀ d : Defaults, d.shown.keys = d.keys := by simp [Defaults.shown, Defaults.keys]
  refine ⟨Segment.names_eq hsegments, Defaults.eq_of_find? ?_ ?_ fun name => ?_, h⟩
  · rw [hkeys]
    exact hfit.sorted
  · rw [hkeys]
    exact hfit'.sorted
  · rw [Defaults.find?_shown, Defaults.find?_shown, hfind]

end Parameters

end ScriptFront
