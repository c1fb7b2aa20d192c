import Lineage.Document.Reading
import Lineage.Proofs.AncestorShape

/-!
# What walks report

A walk reports a circle where it ends at a section whose parent was visited, and reports nothing
else (`Sections.exists_walk_eq_concat`). So a walk along all ancestors reports a circle exactly if
the parent of the last of them is one of them. A lookup ends where it finds a value. The circle is
met when the last ancestor is handed out, and not when the walk would go on from there, so a lookup
that finds the value at the last ancestor reports it too, whereas one that finds it before does not
(`Document.reports_of_ancestors`).

A lookup takes the ancestors one at a time until one holds the key. Those that it takes are the ones
whose reports count, and the value that it comes to is the one that is read
(`Document.searches_iff`).
-/

namespace Lineage

open Text

/-! ## The last visit -/

/-- The report of a walk along a line that ends at a section: its parent, if that is on the line. -/
def circleReport (line : List (Text × Section)) (last : Text × Section) : List Event :=
  match last.2.parent with
  | some parent => if ∃ e ∈ line, e.1 = parent then [.cycleMet last.1 parent] else []
  | none => []

namespace Visit

variable {v : Visit}

theorem events_of_metAgain_eq_none (h : v.metAgain = none) : v.events = [] := by
  rw [events, h]

theorem events_eq_circleReport {line : List (Text × Section)}
    (h : v.metAgain = v.content.parent.filter (fun p => p ∈ line.map Prod.fst)) :
    v.events = circleReport line (v.name, v.content) := by
  unfold events circleReport
  rw [h]
  cases v.content.parent with
  | none => rfl
  | some parent =>
    rw [Option.filter_some]
    by_cases hmem : ∃ e ∈ line, e.1 = parent
    · simp only [List.mem_map, hmem, decide_true, if_true]
    · simp only [List.mem_map, hmem, decide_false, Bool.false_eq_true, if_false]

end Visit

namespace Sections

variable {all rest : Sections}

/-- All visits but the last are silent, for their parents are visited next. The last one reports its
parent if that was visited, be it on this walk or before. -/
theorem exists_walk_eq_concat {visited : List Text} {name : Text}
    (h : Ascent.Unvisited all rest visited) (hname : rest.get? name ≠ none) :
    ∃ (before : List Visit) (last : Visit), all.walk rest name = before ++ [last] ∧
      (∀ v ∈ before, v.metAgain = none) ∧
      last.metAgain = last.content.parent.filter
        (fun p => p ∈ visited ∨ p ∈ (all.path rest name).map Prod.fst) := by
  induction rest, name using walk_induction generalizing visited with
  | missing rest name hs => exact absurd hs hname
  | root rest name s hs hp =>
    refine ⟨[], { name, content := s }, walk_of_root hs hp, nofun, ?_⟩
    rw [hp]
    rfl
  | step rest name s parent hs hp ih =>
    have hcons := h.cons hs
    rw [h.walk_of_step hs hp, path_of_step hs hp]
    cases hnext : (rest.erase name).get? parent with
    | none =>
      rw [walk_eq_nil all hnext, path_of_missing hnext]
      refine ⟨[], _, rfl, nofun, ?_⟩
      simp [hp, Option.filter_some, or_comm]
    | some t =>
      have hnew : parent ∉ name :: visited := by
        intro hmem
        rw [hcons.get?_of_mem hmem] at hnext
        cases hnext
      obtain ⟨before, last, hwalk, hsilent, hlast⟩ := ih hcons (by rw [hnext]; exact nofun)
      rw [if_neg hnew, hwalk]
      refine ⟨{ name, content := s } :: before, last, rfl, ?_, ?_⟩
      · exact List.forall_mem_cons.2 ⟨rfl, hsilent⟩
      · rw [hlast]
        congr 1
        funext p
        simp only [List.map_cons, List.mem_cons, or_assoc, or_left_comm]

end Sections

/-! ## Lookups -/

namespace Ascent

/-- A search for a key hands out these sections, until one holds the key or there is none left, and
comes to this value. -/
inductive Searches (key : Text) : Ascent → List Visit → Option Text → Prop
  | ended {a : Ascent} : a.advance? = none → Searches key a [] none
  | found {a b : Ascent} {v : Visit} {value : Text} : a.advance? = some (v, b) →
      v.content.values.get? key = some value → Searches key a [v] (some value)
  | next {a b : Ascent} {v : Visit} {rest : List Visit} {result : Option Text} :
      a.advance? = some (v, b) → v.content.values.get? key = none →
      Searches key b rest result → Searches key a (v :: rest) result

/-- The next step of the walk settles how a search goes on. -/
theorem Searches.step {key : Text} {a : Ascent} {visits : List Visit} {result : Option Text}
    (h : Searches key a visits result) :
    match a.advance? with
    | none => visits = [] ∧ result = none
    | some (v, b) =>
      match v.content.values.get? key with
      | some value => visits = [v] ∧ result = some value
      | none => ∃ rest, visits = v :: rest ∧ Searches key b rest result := by
  cases h with
  | ended ha =>
    rw [ha]
    exact ⟨rfl, rfl⟩
  | found ha hvalue => simp [ha, hvalue]
  | next ha hnone hrest =>
    simp only [ha, hnone]
    exact ⟨_, rfl, hrest⟩

theorem Searches.unique {key : Text} {a : Ascent} {visits others : List Visit}
    {result other : Option Text} (h : Searches key a visits result)
    (h' : Searches key a others other) : visits = others ∧ result = other := by
  induction h generalizing others other with
  | ended ha =>
    have hstep := h'.step
    rw [ha] at hstep
    exact ⟨hstep.1.symm, hstep.2.symm⟩
  | found ha hvalue =>
    have hstep := h'.step
    simp only [ha, hvalue] at hstep
    exact ⟨hstep.1.symm, hstep.2.symm⟩
  | next ha hnone _ ih =>
    have hstep := h'.step
    simp only [ha, hnone] at hstep
    obtain ⟨rest, rfl, hrest⟩ := hstep
    obtain ⟨rfl, rfl⟩ := ih hrest
    exact ⟨rfl, rfl⟩

theorem Yields.searches {a : Ascent} {visits : List Visit} (h : Yields a visits) (key : Text) :
    Searches key a (Document.visitsUntil key visits)
      (visits.findSome? (fun v => v.content.values.get? key)) := by
  induction h with
  | done ha => exact .ended ha
  | @more a b v rest ha _ ih =>
    rw [Document.visitsUntil, OrderedMap.contains, List.findSome?_cons]
    cases hvalue : v.content.values.get? key with
    | none => exact .next ha hvalue ih
    | some value => exact .found ha hvalue

end Ascent

namespace Document

/-- Looking a key up takes the ancestors one at a time until one holds the key. -/
theorem searches_iff (d : Document) (name : Text) {key : Text} (hkey : key.toName ≠ [])
    (visits : List Visit) (result : Option Text) :
    (Ascent.start d.sections name.toName).Searches key.toName visits result ↔
      visits = visitsUntil key.toName (d.lineage name) ∧ result = d.read? name key := by
  have hsearch := ((d.yields_lineage_iff name _).2 rfl).searches key.toName
  rw [read?, if_neg hkey]
  constructor
  · exact fun h => h.unique hsearch
  · rintro ⟨rfl, rfl⟩
    exact hsearch

theorem flatMap_events_visitsUntil {before : List Visit} (hsilent : ∀ v ∈ before, v.metAgain = none)
    (last : Visit) (key : Text) :
    (visitsUntil key (before ++ [last])).flatMap Visit.events =
      if ∀ v ∈ before, v.content.values.get? key = none then last.events else [] := by
  induction before with
  | nil => simp [visitsUntil]
  | cons v rest ih =>
    obtain ⟨hv, hrest⟩ := List.forall_mem_cons.1 hsilent
    rw [List.cons_append, visitsUntil, List.flatMap_cons, Visit.events_of_metAgain_eq_none hv,
      List.nil_append, OrderedMap.contains]
    cases hvalue : v.content.values.get? key with
    | none => simp [hvalue, ih hrest]
    | some value => simp [hvalue]

/-- The ancestors before the last one are visited in silence, and the last one reports the circle,
if there is one. -/
theorem exists_lineage_eq_concat {d : Document} {name : Text} {before : List (Text × Section)}
    {last : Text × Section} (h : d.ancestors name = before ++ [last]) :
    ∃ (visits : List Visit) (final : Visit), d.lineage name = visits ++ [final] ∧
      before = visits.map (fun v => (v.name, v.content)) ∧ (∀ v ∈ visits, v.metAgain = none) ∧
      final.events = circleReport (d.ancestors name) last := by
  have hname : d.sections.get? name.toName ≠ none := by
    intro hnone
    rw [ancestors, Sections.path_of_missing hnone] at h
    simp at h
  obtain ⟨visits, final, hwalk, hsilent, hfinal⟩ := Sections.exists_walk_eq_concat .nil hname
  obtain ⟨hbefore, rfl⟩ : before = visits.map (fun v => (v.name, v.content)) ∧
      last = (final.name, final.content) := by
    rw [ancestors, Sections.path, hwalk, List.map_append, List.map_singleton] at h
    obtain ⟨hbefore, hlast⟩ := List.append_inj' h.symm rfl
    exact ⟨hbefore, List.singleton_inj.1 hlast⟩
  refine ⟨visits, final, hwalk, hbefore, hsilent, Visit.events_eq_circleReport ?_⟩
  rw [hfinal, ancestors]
  congr 1
  funext p
  simp only [List.not_mem_nil, false_or]

/-- A walk along all ancestors reports a circle exactly if the parent of the last of them is one of
them, and reports nothing else. A lookup does so exactly if, moreover, no ancestor before the last
one holds the key. -/
theorem reports_of_ancestors {d : Document} {name : Text} {before : List (Text × Section)}
    {last : Text × Section} (h : d.ancestors name = before ++ [last]) :
    d.walkLog name = circleReport (d.ancestors name) last ∧
      ∀ key : Text, key.toName ≠ [] →
        (Ascent.start d.sections name.toName).Searches key.toName
            (visitsUntil key.toName (d.lineage name)) (d.read? name key) ∧
          d.readLog name key =
            if ∀ e ∈ before, e.2.get? key = none then circleReport (d.ancestors name) last
            else [] := by
  obtain ⟨visits, final, hlineage, rfl, hsilent, hreport⟩ := exists_lineage_eq_concat h
  have hnothing : visits.flatMap Visit.events = [] := by
    rw [List.flatMap_eq_nil_iff]
    exact fun v hv => Visit.events_of_metAgain_eq_none (hsilent v hv)
  constructor
  · rw [walkLog, hlineage, List.flatMap_append, hnothing, List.flatMap_singleton, hreport,
      List.nil_append]
  · intro key hkey
    refine ⟨(d.searches_iff name hkey _ _).2 ⟨rfl, rfl⟩, ?_⟩
    rw [readLog, if_neg hkey, hlineage, flatMap_events_visitsUntil hsilent, hreport]
    simp only [List.forall_mem_map]
    rfl

/-- The circle does not lead back to `a`. What `c` holds is found where the circle is met. -/
theorem reports_of_ancestors_circle :
    let d := parse "[a:b]\nx=1\n[b:C]\n[c:b]\nk=v\n".toList
    let a : Section := { parent := some "b".toList, values := .ofList [("x".toList, "1".toList)] }
    let b : Section := { parent := some "c".toList }
    let c : Section := { parent := some "b".toList, values := .ofList [("k".toList, "v".toList)] }
    let before := [("a".toList, a), ("b".toList, b)]
    let last := ("c".toList, c)
    d.ancestors " A".toList = before ++ [last] ∧
      circleReport (d.ancestors " A".toList) last = [.cycleMet "c".toList "b".toList] ∧
      (∀ e ∈ before, e.2.get? "K".toList = none) ∧ ¬ (∀ e ∈ before, e.2.get? "X".toList = none) ∧
      d.walkLog " A".toList = circleReport (d.ancestors " A".toList) last ∧
      ∀ key : Text, key.toName ≠ [] →
        (Ascent.start d.sections (toName " A".toList)).Searches key.toName
            (visitsUntil key.toName (d.lineage " A".toList)) (d.read? " A".toList key) ∧
          d.readLog " A".toList key =
            if ∀ e ∈ before, e.2.get? key = none then circleReport (d.ancestors " A".toList) last
            else [] := by
  intro d a b c before last
  have hline : d.ancestors " A".toList = before ++ [last] := by decide +kernel
  exact ⟨hline, by decide +kernel, by decide +kernel, by decide +kernel, reports_of_ancestors hline⟩

end Document

end Lineage
