import LabelAtlas.Proofs.Pages

/-! The links of a page. Labels have no hyphens, so a label can be read off the place of its
section, and every link in the contents leads to a section of its own. -/
namespace LabelAtlas

open Piece Markup

namespace Piece

/-- The value of an attribute of a tag. -/
def attribute? (name : Text) (p : Piece) : Option Text :=
  (p.attributes.find? (·.1 = name)).map (·.2)

end Piece

namespace Markup

theorem opened_append (tag : Text) (a b : List Token) :
    opened tag (a ++ b) = opened tag a ++ opened tag b :=
  List.filter_append a b

/-- The places of the sections. -/
def sectionIds (tokens : List Token) : List (Option Text) :=
  (opened "section" tokens).map (·.tag.attribute? "id")

/-- What the links in the table of contents lead to. -/
def linkTargets (tokens : List Token) : List (Option Text) :=
  (opened "a" (inside "nav" tokens)).map (·.tag.attribute? "href")

end Markup

namespace Html

/-! ## Links and sections -/

theorem opened_contents (visits : List Visit) :
    opened "a" (visits.flatMap fun v => tokens (contents v))
      = (visits.filterMap Visit.entered?).map fun p =>
        ⟨opening "a" [("href", .scalar '#' :: anchor p.1)], lastSegment p.1⟩ := by
  induction visits with
  | nil => rfl
  | cons v visits ih =>
    rw [List.flatMap_cons, opened_append, ih]
    cases v with
    | enter label t =>
      rw [tokens_contents_enter]
      cases t.isLeaf <;> rfl
    | leave label t =>
      rw [tokens_contents_leave]
      cases t.isLeaf <;> rfl

theorem opened_sections (visits : List Visit) :
    opened "section" (sectionsTokens visits)
      = (visits.filterMap Visit.entered?).map fun p => ⟨opening "section" (place p.1), "\n"⟩ := by
  induction visits with
  | nil => rfl
  | cons v visits ih =>
    rw [sectionsTokens, List.flatMap_cons, opened_append, ← sectionsTokens, ih]
    cases v with
    | enter label t =>
      have heading : opened "section" (headingTokens label t.entry) = [] :=
        opened_other (heading_among label t.entry) (by decide)
      have description : opened "section" (descriptionTokens t.entry.description) = [] :=
        opened_other (description_among t.entry.description) (by decide)
      rw [tokens_sections_enter, ← List.singleton_append, opened_append, opened_append, heading,
        description]
      rfl
    | leave label t => rfl

theorem linkTargets_page (title source : Text) (t : Tree) :
    linkTargets (pageTokens title source (t.walk []))
      = (t.entered []).map fun p => some (.scalar '#' :: anchor p.1) := by
  have links : opened "a" (contentsTokens (t.walk [])) =
      opened "a" ((t.walk []).flatMap fun v => tokens (contents v)) := by
    rw [contentsTokens, opened_append]
    exact List.append_nil _
  rw [linkTargets, inside_nav, links, opened_contents, List.map_map]
  rfl

theorem sectionIds_page (title source : Text) (t : Tree) :
    sectionIds (pageTokens title source (t.walk []))
      = (t.entered []).map fun p => some (anchor p.1) := by
  have head : opened "section" (headTokens title source) = [] :=
    opened_other (head_among title source) (by decide)
  have nav : opened "section" (navTokens (t.walk [])) = [] :=
    opened_other (nav_among (t.walk [])) (by decide)
  have main : opened "section" (mainTokens (t.walk [])) =
      opened "section" (sectionsTokens (t.walk [])) := by
    rw [mainTokens, opened_append]
    exact List.append_nil _
  have foot : opened "section" [⟨closing "body", "\n"⟩, ⟨closing "html", "\n"⟩] = [] := rfl
  rw [sectionIds, pageTokens, opened_append, opened_append, opened_append, head, nav, main, foot,
    opened_sections, List.append_nil, List.map_append, List.map_map]
  rfl

/-! ## Places of labels -/

/-- The label whose section has a given place. -/
def labelAt? (id : Text) : Option Text :=
  (Text.after? "label-" id).map fun t => t.map fun c => if c = .scalar '-' then .scalar '.' else c

theorem labelAt?_anchor {label : Text} (free : .scalar '-' ∉ label) :
    labelAt? (anchor label) = some label := by
  have start (t : Text) : labelAt? ("label-" ++ t) =
      some (t.map fun c => if c = .scalar '-' then .scalar '.' else c) := rfl
  apply (start _).trans
  rw [List.map_map]
  apply congrArg some
  calc label.map _ = label.map id := by
        apply List.map_congr_left
        intro c member
        have other : c ≠ .scalar '-' := fun same => free (same ▸ member)
        by_cases dot : c = .scalar '.' <;> simp [dot, other]
    _ = label := List.map_id label

end Html

namespace Export

theorem not_hyphen_of_isNameChar {c : CodePoint} (named : Source.isNameChar c = true) :
    decide (c ≠ .scalar '-') = true := by
  apply decide_eq_true
  rintro rfl
  exact absurd named (by decide +kernel)

end Export

namespace Document

theorem no_hyphen_in_labels (listing : Listing) (labels : Text) (options : Options) :
    ∀ p ∈ (ofListing listing (Export.read labels).labels options).entered,
      .scalar '-' ∉ p.1 := by
  have names := Export.read_all (fun _ => Export.not_hyphen_of_isNameChar) labels
  intro p member inside
  have each := all_labels (by decide) names listing options p member
  exact of_decide_eq_true (List.all_eq_true.mp each _ inside) rfl

/-- Every link in the table of contents of a page leads to the section of the same entry. No two
sections have the same place, and the label of an entry is read off the place of its section. -/
theorem links_lead_to_sections (listing : Listing) (labels : Text) (options : Options)
    (undotted : ∀ e ∈ (Export.read labels).labels, e.name.head? ≠ some (.scalar '.'))
    (page : Text) :
    let d := ofListing listing (Export.read labels).labels options
    d.html = .ok page →
      ∃ tokens, ∃ ids : List Text, read? page = some tokens ∧
        sectionIds tokens = ids.map some ∧ ids.Nodup ∧
        linkTargets tokens = ids.map (fun id => some (.scalar '#' :: id)) ∧
        ids.map Html.labelAt? = d.entered.map (some ·.1) := by
  intro d rendered
  obtain ⟨title, source, -, -, rfl⟩ := html_ok rendered
  have safe := safe_labels (Export.read_safe labels) listing options
  have walked : ∀ v ∈ d.root.walk [], ∀ p ∈ v.entered?, isSafe p.1 = true := by
    intro v member p entered
    exact safe p (List.mem_filterMap.mpr ⟨v, member, entered⟩)
  have labelled :
      (d.entered.map (Html.anchor ·.1)).map Html.labelAt? = d.entered.map (some ·.1) := by
    rw [List.map_map]
    apply List.map_congr_left
    intro p member
    exact Html.labelAt?_anchor (no_hyphen_in_labels listing labels options p member)
  have once : (d.entered.map (some ·.1)).Nodup := by
    have proper := proper_of_shape (ofListing_shape listing (Export.read labels).labels options)
    have readable := readable_ofListing listing (Export.read labels).labels options undotted
    have labels_once := (Tree.entered_nodup proper readable).map (Option.some_injective Text)
    rwa [List.map_map] at labels_once
  refine ⟨_, d.entered.map (Html.anchor ·.1), Html.read?_page walked title source, ?_, ?_, ?_,
    labelled⟩
  · rw [Html.sectionIds_page, List.map_map]
    rfl
  · -- Labels occur once, and different labels cannot have the same place.
    rw [← labelled] at once
    exact once.of_map _
  · rw [Html.linkTargets_page, List.map_map]
    rfl

/-- A namespace, a label inside it, and a label that differs from that one only in a mark. -/
theorem links_lead_to_sections_marks :
    let labels : Text := "text.put: EQU 1\ntext_put EQU 2\ntext = 3\n"
    let d := ofListing (.ofText "; Text\ntext:\n" 0 .null) (Export.read labels).labels {}
    (∀ e ∈ (Export.read labels).labels, e.name.head? ≠ some (.scalar '.')) ∧
    ∃ page tokens, ∃ ids : List Text, d.html = .ok page ∧ read? page = some tokens ∧
      sectionIds tokens = ids.map some ∧ ids.Nodup ∧
      linkTargets tokens = ids.map (fun id => some (.scalar '#' :: id)) ∧
      ids.map Html.labelAt? = (["text", "text.put", "text_put"] : List Text).map some := by
  intro labels d
  have undotted : ∀ e ∈ (Export.read labels).labels, e.name.head? ≠ some (.scalar '.') := by
    decide +kernel
  have entered : d.entered.map (some ·.1)
      = (["text", "text.put", "text_put"] : List Text).map some := by decide +kernel
  have there : d.html.toOption.isSome = true := by decide +kernel
  cases rendered : d.html with
  | error flaw =>
    rw [rendered] at there
    cases there
  | ok page =>
    obtain ⟨tokens, ids, read, sections, once, links, places⟩ := links_lead_to_sections
      (.ofText "; Text\ntext:\n" 0 .null) labels {} undotted page rendered
    exact ⟨undotted, page, tokens, ids, rfl, read, sections, once, links, places.trans entered⟩

end Document

end LabelAtlas
