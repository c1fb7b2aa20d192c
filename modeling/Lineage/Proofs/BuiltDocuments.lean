import Lineage.Proofs.Recovery

/-!
# Documents that are built by changes

A section that a change creates is plain: it has no parent, and it is not abstract, whatever its
name. Reading tells from the name whether a section is abstract. So a document that is built from
an empty one by changes comes back from its text with all that can be written, except that the
sections whose names begin with the mark of abstract sections are abstract then
(`parse_toText_of_changes`). They are listed before and not after (`not_listed_of_marked_name`);
all other sections that are written stay listed.
-/

namespace Lineage

open Text

/-- The section is not abstract and has no parent. -/
structure Section.Plain (s : Section) : Prop where
  isAbstract_eq : s.isAbstract = false
  parent_eq : s.parent = none

/-- The document in which the names of sections tell which of them are abstract. -/
def Document.marked (d : Document) : Document where
  sections := d.sections.map fun name s => { s with isAbstract := name.head? = some Mark.abstract }

namespace Document

variable {d : Document}

theorem keptByChanges_plain : KeptByChanges fun _ s => s.Plain where
  fresh _ _ := ⟨rfl, rfl⟩
  set _ _ _ _ hs _ := ⟨hs.isAbstract_eq, hs.parent_eq⟩
  erase _ _ _ hs := ⟨hs.isAbstract_eq, hs.parent_eq⟩

theorem plain_of_changes (h : Relation.ReflTransGen Change ∅ d) :
    d.sections.All fun _ s => s.Plain :=
  all_of_changes keptByChanges_plain h Sections.All.empty

theorem parentsUnbroken_of_plain (hd : d.sections.All fun _ s => s.Plain) :
    d.ParentsUnbroken := by
  intro name s hs _ p hp
  rw [(hd name s hs).parent_eq] at hp
  cases hp

theorem recovered_eq_marked (hd : d.sections.All fun _ s => s.Plain) :
    d.recovered = d.marked := by
  have hget : ∀ name, d.recovered.sections.get? name = d.marked.sections.get? name := by
    intro name
    rw [recovered, marked, OrderedMap.get?_map, OrderedMap.get?_map]
    cases hs : d.sections.get? name with
    | none => rfl
    | some s =>
      have hparent : (s.recovered name).parent = s.parent := by
        rw [Section.recovered, (hd name s hs).parent_eq]
        rfl
      rw [Option.map_some, Option.map_some, ← hparent]
      rfl
  exact congrArg Document.mk (OrderedMap.ext_get? hget)

theorem plain_written (hd : d.sections.All fun _ s => s.Plain) :
    d.written.sections.All fun _ s => s.Plain := by
  intro name t ht
  obtain ⟨s, hs, -, rfl⟩ := exists_of_get?_written ht
  exact ⟨(hd name s hs).isAbstract_eq, (hd name s hs).parent_eq⟩

/-! ## Listed names -/

theorem mem_names_marked_iff (hd : d.sections.All fun _ s => s.Plain) {name : Text} :
    name ∈ d.marked.names false ↔ name ∈ d.names false ∧ name.head? ≠ some Mark.abstract := by
  rw [mem_names_iff, mem_names_iff, marked, OrderedMap.get?_map]
  simp only [Bool.false_eq_true, false_or]
  constructor
  · rintro ⟨t, ht, hplain⟩
    obtain ⟨s, hs, rfl⟩ := Option.map_eq_some_iff.1 ht
    exact ⟨⟨s, hs, (hd name s hs).isAbstract_eq⟩, of_decide_eq_false hplain⟩
  · rintro ⟨⟨s, hs, -⟩, hname⟩
    refine ⟨_, Option.map_eq_some_iff.2 ⟨s, hs, rfl⟩, ?_⟩
    exact decide_eq_false hname

theorem marked_eq_self_iff (hd : d.sections.All fun _ s => s.Plain) :
    d.marked = d ↔ ∀ name ∈ d.names false, name.head? ≠ some Mark.abstract := by
  constructor
  · intro h name hname
    have hmarked : name ∈ d.marked.names false := by
      rw [h]
      exact hname
    exact ((mem_names_marked_iff hd).1 hmarked).2
  · intro h
    have hget : ∀ name, d.marked.sections.get? name = d.sections.get? name := by
      intro name
      rw [marked, OrderedMap.get?_map]
      cases hs : d.sections.get? name with
      | none => rfl
      | some s =>
        have hplain := (hd name s hs).isAbstract_eq
        have hname := h name (mem_names_iff.2 ⟨s, hs, Or.inr hplain⟩)
        rw [Option.map_some, decide_eq_false hname, ← hplain]
    exact congrArg Document.mk (OrderedMap.ext_get? hget)

/-! ## What comes back -/

/-- All that can be written comes back, and names tell then which sections are abstract, while none
was. So it comes back as it was exactly if no name begins with the mark, and what was listed and is
written is listed again, unless its name does. -/
theorem parse_toText_of_changes (h : Relation.ReflTransGen Change ∅ d) (ending : LineEnding) :
    let back := parse (d.toText { lineEnding := ending, inheritance := .preserve })
    (d.sections.All fun _ s => s.Plain) ∧ back = d.written.marked ∧
      (back = d.written ↔ ∀ name ∈ d.written.names false, name.head? ≠ some Mark.abstract) ∧
      ∀ name, name ∈ back.names false ↔
        name ∈ d.written.names false ∧ name.head? ≠ some Mark.abstract := by
  intro back
  have hplain := plain_of_changes h
  have hrestored : d.Restored := ⟨∅, Or.inl rfl, h⟩
  have hback : back = d.written.marked := by
    have hheaded := wellHeaded_of_reachable hrestored.reachable (parentsUnbroken_of_plain hplain)
    show parse _ = _
    rw [parse_toText_eq_recovered hheaded ending, recovered_eq_marked (plain_written hplain)]
  refine ⟨hplain, hback, ?_, ?_⟩
  · rw [hback]
    exact marked_eq_self_iff (plain_written hplain)
  · intro name
    rw [hback]
    exact mem_names_marked_iff (plain_written hplain)

/-- A document of one section with one value. -/
def single (name : Text) : Document where
  sections := .ofList [(name, { values := .ofList [("k".toList, "v".toList)] })]

theorem parse_toText_of_changes_unmarked :
    let d := single "a_b".toList
    let back := parse (d.toText { lineEnding := .crlf, inheritance := .preserve })
    Relation.ReflTransGen Change ∅ d ∧ (d.sections.All fun _ s => s.Plain) ∧
      back = d.written.marked ∧ back = d.written ∧
      ∀ name, name ∈ back.names false ↔
        name ∈ d.written.names false ∧ name.head? ≠ some Mark.abstract := by
  intro d back
  have hwrite : (∅ : Document).write? "A_B".toList "K".toList "v".toList = some d := by
    decide +kernel
  have hd : Relation.ReflTransGen Change ∅ d := .single (.write hwrite)
  obtain ⟨hplain, hmarked, hsame, hlisted⟩ := parse_toText_of_changes hd .crlf
  exact ⟨hd, hplain, hmarked, hsame.2 (by decide +kernel), hlisted⟩

/-- The section is written, but it is listed before and not after. -/
theorem not_listed_of_marked_name :
    let d := single "_a".toList
    let back := parse (d.toText { lineEnding := .crlf, inheritance := .preserve })
    Relation.ReflTransGen Change ∅ d ∧ back ≠ d.written ∧ d.names false = ["_a".toList] ∧
      d.written.names false = ["_a".toList] ∧ back.names false = [] := by
  intro d back
  have hwrite : (∅ : Document).write? "_a".toList "k".toList "v".toList = some d := by
    decide +kernel
  exact ⟨.single (.write hwrite), by decide +kernel⟩

end Document

end Lineage
