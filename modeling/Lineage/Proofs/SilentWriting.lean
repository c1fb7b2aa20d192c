import Lineage.Proofs.Recovery

/-!
# Writing without a warning loses no value that can be looked up

Writing warns of every section whose name does not fit a header and of every value that does not
fit a line. It says nothing of two more things that are left out: empty values, and sections that
are left without values and without a parent. Where no value is empty, such a section holds nothing
and inherits nothing, so a walk that comes to it ends there and finds nothing in it; a walk that
finds it missing ends one step before (`Sections.Pruned.findSome?_path`). So no lookup can tell that
it is gone (`read?_parse_toText`).
-/

namespace Lineage

open Text

/-! ## Sections that walks do not need -/

/-- A map holds the sections of another one, all with their parents and values, but for some that
hold nothing and inherit nothing. -/
structure Sections.Pruned (m kept : Sections) : Prop where
  missing : ∀ name, m.get? name = none → kept.get? name = none
  kept_or_idle : ∀ name s, m.get? name = some s →
    (∃ t, kept.get? name = some t ∧ t.parent = s.parent ∧ t.values = s.values) ∨
      (kept.get? name = none ∧ s.parent = none ∧ s.entries = [])

namespace Section

theorem get?_congr {s t : Section} (h : t.values = s.values) (key : Text) :
    t.get? key = s.get? key := by
  rw [get?, get?, h]

theorem get?_of_entries_eq_nil {s : Section} (h : s.entries = []) (key : Text) :
    s.get? key = none := by
  have hvalues : s.values = ∅ := OrderedMap.ext_entries h
  rw [get?, hvalues, OrderedMap.get?_empty]

end Section

namespace Sections.Pruned

variable {all other rest kept : Sections}

theorem erase (h : Pruned rest kept) (n : Text) : Pruned (rest.erase n) (kept.erase n) := by
  constructor
  · intro name hname
    rw [OrderedMap.get?_erase] at hname ⊢
    split at hname
    · rename_i heq
      rw [if_pos heq]
    · rename_i hne
      rw [if_neg hne, h.missing name hname]
  · intro name s hs
    rw [OrderedMap.get?_erase] at hs ⊢
    split at hs
    · cases hs
    · rename_i hne
      rw [if_neg hne]
      exact h.kept_or_idle name s hs

theorem findSome?_path (h : Pruned rest kept) (start key : Text) :
    (other.path kept start).findSome? (fun e => e.2.get? key) =
      (all.path rest start).findSome? (fun e => e.2.get? key) := by
  induction rest, start using walk_induction generalizing kept with
  | missing rest start hs => rw [path_of_missing hs, path_of_missing (h.missing start hs)]
  | root rest start s hs hp =>
    rcases h.kept_or_idle start s hs with ⟨t, ht, htp, hvalues⟩ | ⟨hnone, -, hentries⟩
    · rw [path_of_root hs hp, path_of_root ht (htp.trans hp), List.findSome?_cons,
        List.findSome?_cons, Section.get?_congr hvalues]
    · rw [path_of_root hs hp, path_of_missing hnone, List.findSome?_cons,
        Section.get?_of_entries_eq_nil hentries]
  | step rest start s parent hs hp ih =>
    -- A section with a parent is never left out, so only the end of a walk can be missing.
    rcases h.kept_or_idle start s hs with ⟨t, ht, htp, hvalues⟩ | ⟨-, hnone, -⟩
    · rw [path_of_step hs hp, path_of_step ht (htp.trans hp), List.findSome?_cons,
        List.findSome?_cons, Section.get?_congr hvalues, ih (h.erase start)]
    · rw [hp] at hnone
      cases hnone

end Sections.Pruned

namespace Document

variable {d : Document}

theorem read?_of_pruned {d' : Document} (h : d.sections.Pruned d'.sections) (name key : Text) :
    d'.read? name key = d.read? name key := by
  by_cases hkey : key.toName = []
  · rw [read?, read?, if_pos hkey, if_pos hkey]
  · rw [read?_eq_findSome? d' name hkey, read?_eq_findSome? d name hkey]
    exact h.findSome?_path name.toName key

/-! ## What silence says -/

/-- Writing warns of what does not fit. -/
theorem fits_of_no_warning (h : ∀ e ∈ d.writeLog .preserve, e.level ≠ .warn) :
    d.sections.All fun name s =>
      name.fitsHeader = true ∧ ∀ e ∈ s.entries, e.2 ≠ [] → Entry.fitsLine e = true := by
  intro name s hs
  have hmem : (name, s) ∈ d.sections.entries := (OrderedMap.mem_entries_iff _).2 hs
  have hlog : ∀ e ∈ sectionLog d.lineage .preserve name s, e.level ≠ .warn := by
    intro e he
    apply h
    rw [writeLog_eq]
    exact List.mem_flatMap.2 ⟨(name, s), hmem, he⟩
  have hname : name.fitsHeader = true := by
    by_contra hname
    apply hlog (.sectionNotWritten name) _ rfl
    rw [sectionLog, if_pos hname]
    exact List.mem_singleton_self _
  refine ⟨hname, ?_⟩
  intro e he hne
  by_contra hfits
  apply hlog (.entryNotWritten name e.1) _ rfl
  rw [sectionLog, if_neg (not_not.2 hname)]
  apply List.mem_flatMap.2 ⟨e, he, _⟩
  rw [Entry.writeLog, if_pos ⟨hne, hfits⟩]
  exact List.mem_singleton_self _

theorem pruned_written_recovered
    (hfits : d.sections.All fun name s =>
      name.fitsHeader = true ∧ ∀ e ∈ s.entries, Entry.fitsLine e = true)
    (hparents : d.sections.All fun name s => (s.recovered name).parent = s.parent) :
    d.sections.Pruned d.written.recovered.sections := by
  constructor
  · intro name hname
    rw [recovered, OrderedMap.get?_map, get?_written, hname]
    rfl
  · intro name s hs
    obtain ⟨hname, hentries⟩ := hfits name s hs
    have hwritten := Section.written_eq_self hentries
    by_cases hcontent : s.entries = [] ∧ s.parent = none
    · right
      refine ⟨?_, hcontent.2, hcontent.1⟩
      rw [recovered, OrderedMap.get?_map, get?_written, hs, Option.filter_some, if_pos hname,
        Option.map_some, hwritten, Option.filter_some, if_neg, Option.map_none]
      rw [s.has_content_iff]
      exact not_not.2 hcontent
    · left
      have hget : d.written.sections.get? name = some s := by
        rw [get?_written_of_content hs hname (by rwa [hwritten]), hwritten]
      refine ⟨s.recovered name, ?_, hparents name s hs, rfl⟩
      rw [recovered, OrderedMap.get?_map, hget, Option.map_some]

/-- Where no value is empty, every parent can stand at the end of a header, and writing gives no
warning, each lookup gives the same in what is read back. -/
theorem read?_parse_toText (hd : d.Reachable)
    (hvalues : d.sections.All fun _ s => ∀ e ∈ s.entries, e.2 ≠ [])
    (hparents : d.sections.All fun _ s => ∀ p ∈ s.parent, p.hasLineBreak = false ∧
      p.getLast? ≠ some Mark.headerOpen ∧ p.getLast? ≠ some Mark.headerClose ∧
        p.getLast? ≠ some Mark.parent)
    (hlog : ∀ e ∈ d.writeLog .preserve, e.level ≠ .warn) (ending : LineEnding)
    (name key : Text) :
    (parse (d.toText { lineEnding := ending, inheritance := .preserve })).read? name key =
      d.read? name key := by
  have hunbroken : d.ParentsUnbroken := by
    intro n s hs _ p hp
    exact (hparents n s hs p hp).1
  have hfits : d.sections.All fun n s =>
      n.fitsHeader = true ∧ ∀ e ∈ s.entries, Entry.fitsLine e = true := by
    intro n s hs
    obtain ⟨hname, hentries⟩ := fits_of_no_warning hlog n s hs
    exact ⟨hname, fun e he => hentries e he (hvalues n s hs e he)⟩
  have hrecovered : d.sections.All fun n s => (s.recovered n).parent = s.parent := by
    intro n s hs
    have hname := (hd.normal n s hs).parent_isName
    apply Header.bind_recoveredParent_eq_self hname
    intro p hp
    exact parent_edge_any (hname p hp) (hparents n s hs p hp).2
  rw [parse_toText_eq_recovered (wellHeaded_of_reachable hd hunbroken) ending]
  exact read?_of_pruned (pruned_written_recovered hfits hrecovered) name key

/-- The section `b` is not written. -/
theorem read?_parse_toText_idle_parent :
    let d := parse "[a:b]\nk=1\n[b]\n[c:a]\n".toList
    d.Reachable ∧ (d.sections.All fun _ s => ∀ e ∈ s.entries, e.2 ≠ []) ∧
      (d.sections.All fun _ s => ∀ p ∈ s.parent, p.hasLineBreak = false ∧
        p.getLast? ≠ some Mark.headerOpen ∧ p.getLast? ≠ some Mark.headerClose ∧
          p.getLast? ≠ some Mark.parent) ∧
      (∀ e ∈ d.writeLog .preserve, e.level ≠ .warn) ∧
      (d.written.section? "b".toList).isNone ∧
      (parse (d.toText { lineEnding := .crlf, inheritance := .preserve })).read? "C".toList
        "K".toList = d.read? "C".toList "K".toList := by
  intro d
  have hd : d.Reachable := Reachable.parse _
  have hvalues : d.sections.All fun _ s => ∀ e ∈ s.entries, e.2 ≠ [] := by decide +kernel
  have hparents : d.sections.All fun _ s => ∀ p ∈ s.parent, p.hasLineBreak = false ∧
      p.getLast? ≠ some Mark.headerOpen ∧ p.getLast? ≠ some Mark.headerClose ∧
        p.getLast? ≠ some Mark.parent := by decide +kernel
  have hlog : ∀ e ∈ d.writeLog .preserve, e.level ≠ .warn := by decide +kernel
  exact ⟨hd, hvalues, hparents, hlog, by decide +kernel,
    read?_parse_toText hd hvalues hparents hlog .crlf "C".toList "K".toList⟩

end Document

end Lineage
