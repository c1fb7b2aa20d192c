import Lineage.Proofs.NormalForm
import Lineage.Proofs.ReadingBlocks
import Lineage.Proofs.Walks

/-!
# The names under which sections are stored

A document lists its sections under texts that are not empty and in small letters
(`Reachable.spelled`). Lookups take names in normal form, so a section is found under the name that
is listed exactly if there is nothing blank at the ends of that name (`names_of_reachable`).

Keys and parents are in normal form in every document that can be reached
(`keys_and_parents_of_reachable`). That is why walks may look up parents, and lookups keys, as they
are stored.

Snapshots and changes take the names of sections in normal form too. A header is put in small
letters as a whole, and the two parts of a header with a colon are trimmed, but a name that stands
alone keeps blanks other than spaces and tabs. Its section is listed, and that is all: no argument
of a lookup stands for its name, no walk visits it, and erasing cannot remove it
(`not_found_of_blank_name`).
-/

namespace Lineage

open Text

/-- The name of a stored section is in small letters, and trimmed if the section has a parent. -/
structure Section.Spelled (name : Text) (s : Section) : Prop where
  name_ne_nil : name ≠ []
  small : ∀ c ∈ name, IsSmall c
  trim_name : s.parent.isSome → trim name = name

theorem Section.spelled_of_isName {name : Text} (hname : IsName name) (s : Section) :
    s.Spelled name where
  name_ne_nil := hname.1
  small _ hc := hname.isSmall hc
  trim_name _ := hname.trim_eq

theorem Section.Spelled.of_parent_eq {name : Text} {s t : Section} (h : s.Spelled name)
    (hparent : t.parent = s.parent) : t.Spelled name where
  name_ne_nil := h.name_ne_nil
  small := h.small
  trim_name ht := h.trim_name (hparent ▸ ht)

namespace Sections

/-- A walk from a name in normal form along parents in normal form visits nothing else. -/
theorem toName_of_mem_path {all rest : Sections} {start : Text} (hrest : rest.Normal)
    (hstart : toName start = start) {e : Text × Section} (he : e ∈ all.path rest start) :
    toName e.1 = e.1 := by
  induction rest, start using walk_induction with
  | missing rest start hs =>
    rw [path_of_missing hs] at he
    cases he
  | root rest start s hs hp =>
    rw [path_of_root hs hp, List.mem_singleton] at he
    rw [he]
    exact hstart
  | step rest start s parent hs hp ih =>
    rw [path_of_step hs hp, List.mem_cons] at he
    rcases he with rfl | he
    · exact hstart
    · have hparent : IsName parent := (hrest _ _ hs).parent_isName parent hp
      exact ih (hrest.erase start) hparent.2 he

end Sections

namespace Document

variable {d : Document} {name : Text} {s : Section}

/-! ## Spelling -/

theorem keptByChanges_spelled : KeptByChanges Section.Spelled where
  fresh _ hname := Section.spelled_of_isName hname _
  set _ _ _ _ hs _ := hs.of_parent_eq rfl
  erase _ _ _ hs := hs.of_parent_eq rfl

theorem spelled_parse (text : Text) : (parse text).sections.All Section.Spelled := by
  apply all_parse
  · intro text h _ hh
    obtain ⟨hne, hsmall, htrim, -⟩ := Header.names_of_parse? hh
    rw [Section.declare_of_parse? hh]
    exact ⟨hne, hsmall, htrim⟩
  · intro name s text e hs _ _
    exact hs.of_parent_eq rfl

theorem spelled_of_ofJson? {j : Json} (hj : ofJson? j = some d) :
    d.sections.All Section.Spelled := by
  intro name s hs
  obtain ⟨hname, -⟩ := named_of_ofJson? hj name s hs
  exact Section.spelled_of_isName hname s

theorem Reachable.spelled (h : d.Reachable) : d.sections.All Section.Spelled :=
  h.all keptByChanges_spelled spelled_parse fun _ _ hd => spelled_of_ofJson? hd

/-! ## Keys and parents -/

/-- Keys and parents stand for themselves. So a key that is stored finds its value, and a parent the
section of that name, if there is one, looked up as they are. -/
theorem keys_and_parents_of_reachable (hd : d.Reachable) (hs : d.sections.get? name = some s) :
    (∀ key value, s.values.get? key = some value →
      key ≠ [] ∧ toName key = key ∧ s.get? key = some value) ∧
      ∀ parent, s.parent = some parent →
        parent ≠ [] ∧ toName parent = parent ∧ d.section? parent = d.sections.get? parent := by
  have hnormal : s.Normal := hd.normal name s hs
  constructor
  · intro key value hvalue
    obtain ⟨hne, hkey⟩ := hnormal.key_isName key value hvalue
    refine ⟨hne, hkey, ?_⟩
    rw [Section.get?, hkey, hvalue]
  · intro parent hparent
    obtain ⟨hne, hname⟩ := hnormal.parent_isName parent hparent
    refine ⟨hne, hname, ?_⟩
    rw [section?, hname]

/-- The small form of the parent has one character more than the parent. The small sigma of the key
is that of a word's end, and the value of `k` was written later. -/
theorem keys_and_parents_of_reachable_small_forms :
    let d := parse "[A:\u00A0\u0130 ]\n\u0391\u03A3 = v\n".toList
    let s : Section :=
      { parent := some "i\u0307".toList
        values := .ofList [("k".toList, "w".toList), ("\u03B1\u03C2".toList, "v".toList)] }
    let d' : Document := { sections := .ofList [("a".toList, s)] }
    d.write? " A".toList "K\u2003".toList "w".toList = some d' ∧ d'.Reachable ∧
      d'.sections.get? "a".toList = some s ∧
      (∀ key value, s.values.get? key = some value →
        key ≠ [] ∧ toName key = key ∧ s.get? key = some value) ∧
      ∀ parent, s.parent = some parent →
        parent ≠ [] ∧ toName parent = parent ∧ d'.section? parent = d'.sections.get? parent := by
  intro d s d'
  have hwrite : d.write? " A".toList "K\u2003".toList "w".toList = some d' := by decide +kernel
  have hd' : d'.Reachable := .change (.parse _) (.write hwrite)
  have hs : d'.sections.get? "a".toList = some s := by decide +kernel
  exact ⟨hwrite, hd', hs, keys_and_parents_of_reachable hd' hs⟩

/-! ## Lookups -/

/-- Every way to look up a name comes to the section that is stored under it. -/
structure Finds (d : Document) (name : Text) (s : Section) : Prop where
  by_section? : d.section? name = some s
  by_hasSection : d.hasSection name = true
  by_ancestors : (d.ancestors name).head? = some (name, s)
  by_read? : ∀ key value, s.get? key = some value → d.read? name key = some value
  by_eraseSection? : d.eraseSection? name = some { sections := d.sections.erase name }

/-- No way to look up any name comes to what is stored under this one. -/
structure Unfound (d : Document) (name : Text) : Prop where
  toName_ne : ∀ arg, toName arg ≠ name
  not_visited : ∀ arg, ∀ e ∈ d.ancestors arg, e.1 ≠ name
  not_erased : ∀ arg d', d.eraseSection? arg = some d' →
    d'.sections.get? name = d.sections.get? name

theorem mem_names_iff {withAbstract : Bool} :
    name ∈ d.names withAbstract ↔
      ∃ s, d.sections.get? name = some s ∧ (withAbstract = true ∨ s.isAbstract = false) := by
  simp only [names, List.mem_map, List.mem_filter, Bool.or_eq_true, Bool.not_eq_true', Prod.exists,
    OrderedMap.mem_entries_iff]
  constructor
  · rintro ⟨n, s, hs, rfl⟩
    exact ⟨s, hs⟩
  · rintro ⟨s, hs⟩
    exact ⟨name, s, hs, rfl⟩

theorem finds_of_isName (hd : d.Normal) (hs : d.sections.get? name = some s)
    (hname : IsName name) : d.Finds name s := by
  have hsection : d.section? name = some s := by
    rw [section?, hname.2]
    exact hs
  have hhas : d.hasSection name = true := by
    rw [hasSection, hsection]
    rfl
  obtain ⟨tail, hwalk⟩ : ∃ tail, d.ancestors name = (name, s) :: tail := by
    rw [ancestors, hname.2]
    exact Sections.exists_path_eq_cons hs
  refine ⟨hsection, hhas, ?_, ?_, ?_⟩
  · rw [hwalk]
    rfl
  · intro key value hvalue
    have hkey : key.toName ≠ [] := ((hd _ _ hs).key_isName _ _ hvalue).1
    rw [read?_eq_findSome? d name hkey, hwalk, List.findSome?_cons, hvalue]
  · rw [eraseSection?, if_pos hhas, hname.2]

theorem unfound_of_trim_ne (hd : d.Normal) (htrim : trim name ≠ name) : d.Unfound name := by
  have hname : toName name ≠ name := by
    intro h
    exact htrim (toName_eq_self_iff.1 h).1
  -- What any argument stands for is its own name, and this text is not.
  have harg : ∀ arg, toName arg ≠ name := by
    rintro arg rfl
    exact hname (toName_toName arg)
  refine ⟨harg, ?_, ?_⟩
  · rintro arg e he rfl
    exact hname (Sections.toName_of_mem_path hd (toName_toName arg) he)
  · intro arg d' h
    unfold eraseSection? at h
    split at h
    · cases h
      rw [OrderedMap.get?_erase_of_ne _ (harg arg).symm]
    · cases h

/-- Every name that is listed is not empty and in small letters. The section is found by it if
there is nothing blank at its ends. Otherwise it came from a header without a parent in a text, and
nothing finds it. -/
theorem names_of_reachable (hd : d.Reachable) (hname : name ∈ d.names true) :
    ∃ s, d.sections.get? name = some s ∧ name ≠ [] ∧ lowercase name = name ∧
      (trim name = name → IsName name ∧ d.Finds name s) ∧
      (trim name ≠ name → s.parent = none ∧ d.Unfound name ∧ ¬ d.Restored) := by
  obtain ⟨s, hs, -⟩ := mem_names_iff.1 hname
  have hspelled := hd.spelled _ _ hs
  refine ⟨s, hs, hspelled.name_ne_nil, lowercase_eq_self hspelled.small, ?_, ?_⟩
  · intro htrim
    have hisName : IsName name :=
      ⟨hspelled.name_ne_nil, toName_eq_self_iff.2 ⟨htrim, hspelled.small⟩⟩
    exact ⟨hisName, finds_of_isName hd.normal hs hisName⟩
  · intro htrim
    refine ⟨?_, unfound_of_trim_ne hd.normal htrim, ?_⟩
    · rw [← Option.not_isSome_iff_eq_none]
      intro hparent
      exact htrim (hspelled.trim_name hparent)
    · intro hrestored
      exact htrim (hrestored.named _ _ hs).1.trim_eq

/-- The no-break space before `a` stays, so nothing finds that section. The one before `C` is
trimmed, and the section is found as `c`. -/
theorem names_of_reachable_blank :
    let d := parse "[\u00A0a]\nk=v\n[\u00A0C:B]\n".toList
    d.Reachable ∧
      ("\u00A0a".toList ∈ d.names true ∧ trim "\u00A0a".toList ≠ "\u00A0a".toList ∧
        ∃ s, d.sections.get? "\u00A0a".toList = some s ∧ "\u00A0a".toList ≠ [] ∧
          lowercase "\u00A0a".toList = "\u00A0a".toList ∧ s.parent = none ∧
          d.Unfound "\u00A0a".toList ∧ ¬ d.Restored) ∧
      "c".toList ∈ d.names true ∧ trim "c".toList = "c".toList ∧
        ∃ s, d.sections.get? "c".toList = some s ∧ "c".toList ≠ [] ∧
          lowercase "c".toList = "c".toList ∧ IsName "c".toList ∧ d.Finds "c".toList s := by
  intro d
  have hd : d.Reachable := Reachable.parse _
  have hblank : "\u00A0a".toList ∈ d.names true := by decide +kernel
  have hblank_trim : trim "\u00A0a".toList ≠ "\u00A0a".toList := by decide +kernel
  have hname : "c".toList ∈ d.names true := by decide +kernel
  have hname_trim : trim "c".toList = "c".toList := by decide +kernel
  obtain ⟨s, hs, hne, hsmall, -, hunfound⟩ := names_of_reachable hd hblank
  obtain ⟨s', hs', hne', hsmall', hfinds, -⟩ := names_of_reachable hd hname
  exact ⟨hd, ⟨hblank, hblank_trim, s, hs, hne, hsmall, hunfound hblank_trim⟩,
    hname, hname_trim, s', hs', hne', hsmall', hfinds hname_trim⟩

/-- The section is listed under a text that is no name, and no lookup of that text finds it. -/
theorem not_found_of_blank_name :
    let d := parse "[\u00A0a]\nk=v".toList
    d.Reachable ∧ d.names true = ["\u00A0a".toList] ∧ ¬ IsName "\u00A0a".toList ∧
      d.section? "\u00A0a".toList = none ∧ d.hasSection "\u00A0a".toList = false ∧
      d.read? "\u00A0a".toList "k".toList = none ∧ d.eraseSection? "\u00A0a".toList = none := by
  intro d
  exact ⟨Reachable.parse _, by decide +kernel⟩

end Document

end Lineage
