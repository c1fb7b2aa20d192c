import Lineage.Document.Reading
import Lineage.Proofs.Names
import Lineage.Proofs.Walks

/-!
# Where a written value is seen

A value that is written to a section is seen from every section whose walk comes to that section
before it comes to another one that holds the key, and from nowhere else (`visibility_of_write`).
A write may create a section that others name as their parent already, and then all their walks
become longer by it. What happens to any walk is said once (`Sections.rerouted_insert`): up to the
written section nothing changes, there the new section takes the place of the old one, if there was
one, and after it nothing changes either, since the parent stays.
-/

namespace Lineage

open Text

namespace Sections

/-! ## Walks after a section is replaced or added -/

/-- How a walk changes when the section of a name is replaced, or added where it was missing. -/
inductive Rerouted (target : Text) (old : Option Section) (new : Section) :
    List (Text × Section) → List (Text × Section) → Prop
  | apart (walk : List (Text × Section)) :
      (∀ e ∈ walk, e.1 ≠ target) → Rerouted target old new walk walk
  | through (before after : List (Text × Section)) :
      (∀ e ∈ before, e.1 ≠ target) →
      Rerouted target old new
        (before ++ ((old.map (fun s => (target, s))).toList ++ after))
        (before ++ (target, new) :: after)

theorem Rerouted.cons {target : Text} {old : Option Section} {new : Section}
    {walk walk' : List (Text × Section)} (h : Rerouted target old new walk walk')
    {e : Text × Section} (he : e.1 ≠ target) :
    Rerouted target old new (e :: walk) (e :: walk') := by
  cases h with
  | apart _ hwalk => exact apart _ (List.forall_mem_cons.2 ⟨he, hwalk⟩)
  | through before after hbefore =>
    exact through (e :: before) after (List.forall_mem_cons.2 ⟨he, hbefore⟩)

variable {all rest : Sections} {target : Text} {new : Section}

theorem rerouted_insert_self (hnew : new.parent = (rest.get? target).bind Section.parent) :
    Rerouted target (rest.get? target) new
      (all.path rest target) (all.path (rest.insert target new) target) := by
  have hget : (rest.insert target new).get? target = some new := by
    rw [OrderedMap.get?_insert_self]
  cases hs : rest.get? target with
  | none =>
    rw [hs] at hnew
    rw [path_of_missing hs, path_of_root hget hnew]
    exact .through [] [] nofun
  | some s =>
    rw [hs, Option.bind_some] at hnew
    cases hp : s.parent with
    | none =>
      rw [hp] at hnew
      rw [path_of_root hs hp, path_of_root hget hnew]
      exact .through [] [] nofun
    | some parent =>
      rw [hp] at hnew
      rw [path_of_step hs hp, path_of_step hget hnew, OrderedMap.erase_insert_self]
      exact .through [] _ nofun

theorem rerouted_insert (hnew : new.parent = (rest.get? target).bind Section.parent)
    (start : Text) :
    Rerouted target (rest.get? target) new
      (all.path rest start) (all.path (rest.insert target new) start) := by
  induction rest, start using walk_induction with
  | missing rest start h =>
    by_cases hstart : start = target
    · subst hstart
      exact rerouted_insert_self hnew
    · have h' : (rest.insert target new).get? start = none := by
        rw [OrderedMap.get?_insert_of_ne _ hstart, h]
      rw [path_of_missing h, path_of_missing h']
      exact .apart [] nofun
  | root rest start s hs hp =>
    by_cases hstart : start = target
    · subst hstart
      exact rerouted_insert_self hnew
    · have hs' : (rest.insert target new).get? start = some s := by
        rw [OrderedMap.get?_insert_of_ne _ hstart, hs]
      rw [path_of_root hs hp, path_of_root hs' hp]
      exact .apart _ (List.forall_mem_singleton.2 hstart)
  | step rest start s parent hs hp ih =>
    by_cases hstart : start = target
    · subst hstart
      exact rerouted_insert_self hnew
    · have hs' : (rest.insert target new).get? start = some s := by
        rw [OrderedMap.get?_insert_of_ne _ hstart, hs]
      have hrest : (rest.erase start).get? target = rest.get? target := by
        rw [OrderedMap.get?_erase_of_ne _ (Ne.symm hstart)]
      rw [path_of_step hs hp, path_of_step hs' hp, OrderedMap.erase_insert_of_ne _ hstart]
      rw [hrest] at ih
      exact (ih hnew).cons hstart

/-! ## Values along such walks -/

namespace Rerouted

variable {old : Option Section} {walk walk' : List (Text × Section)}
  {f : Section → Option Text} {value : Text}

/-- What the new section has as the old one had is found as it was. -/
theorem findSome?_eq (h : Rerouted target old new walk walk') (hnew : f new = old.bind f) :
    walk'.findSome? (fun e => f e.2) = walk.findSome? (fun e => f e.2) := by
  cases h with
  | apart _ _ => rfl
  | through before after _ =>
    rw [List.findSome?_append, List.findSome?_append, List.findSome?_append, List.findSome?_cons,
      hnew]
    cases old with
    | none => rfl
    | some s => cases hs : f s <;> simp [hs]

theorem takeWhile_through {before after : List (Text × Section)}
    (hbefore : ∀ e ∈ before, e.1 ≠ target) :
    (before ++ (target, new) :: after).takeWhile (fun e => e.1 ≠ target) = before := by
  rw [List.takeWhile_append_of_pos (by simpa using hbefore), List.takeWhile_cons_of_neg (by simp),
    List.append_nil]

theorem findSome?_of_first (h : Rerouted target old new walk walk') (hnew : f new = some value)
    (hmem : target ∈ walk'.map Prod.fst)
    (hfirst : ∀ e ∈ walk'.takeWhile (fun e => e.1 ≠ target), f e.2 = none) :
    walk'.findSome? (fun e => f e.2) = some value := by
  cases h with
  | apart _ hwalk =>
    obtain ⟨e, he, htarget⟩ := List.mem_map.1 hmem
    exact absurd htarget (hwalk e he)
  | through before after hbefore =>
    rw [takeWhile_through hbefore] at hfirst
    rw [List.findSome?_append, List.findSome?_eq_none_iff.2 hfirst, List.findSome?_cons, hnew]
    rfl

theorem findSome?_of_not_first (h : Rerouted target old new walk walk')
    (hnot : ¬ (target ∈ walk'.map Prod.fst ∧
      ∀ e ∈ walk'.takeWhile (fun e => e.1 ≠ target), f e.2 = none)) :
    walk'.findSome? (fun e => f e.2) = walk.findSome? (fun e => f e.2) := by
  cases h with
  | apart _ _ => rfl
  | through before after hbefore =>
    rw [takeWhile_through hbefore] at hnot
    have hsome : before.findSome? (fun e => f e.2) ≠ none := by
      intro hnone
      exact hnot ⟨by simp, List.findSome?_eq_none_iff.1 hnone⟩
    obtain ⟨v, hv⟩ := Option.ne_none_iff_exists'.1 hsome
    rw [List.findSome?_append, List.findSome?_append, hv]
    rfl

end Rerouted

end Sections

/-! ## The written section -/

/-- The section that a write leaves, given the one that was there. -/
def Section.afterWrite (old : Option Section) (key value : Text) : Section :=
  (old.getD (Section.declare false none)).set key.toName value

namespace Section

theorem parent_afterWrite (old : Option Section) (key value : Text) :
    (afterWrite old key value).parent = old.bind Section.parent := by
  cases old <;> rfl

theorem get?_afterWrite (old : Option Section) (key value j : Text) :
    (afterWrite old key value).get? j =
      if j.toName = key.toName then some value else old.bind (fun s => s.get? j) := by
  rw [afterWrite, get?_set, toName_toName]
  cases old <;> rfl

end Section

namespace Document

variable {d d' : Document} {name key value : Text}

theorem rerouted_of_write? (h : d.write? name key value = some d') (n : Text) :
    Sections.Rerouted name.toName (d.section? name) (Section.afterWrite (d.section? name) key value)
      (d.ancestors n) (d'.ancestors n) := by
  unfold write? at h
  split at h
  · cases h
  · cases h
    rw [ancestors, ancestors, Sections.path_eq_path d.sections]
    exact Sections.rerouted_insert (Section.parent_afterWrite _ key value) n.toName

/-- The section of a name is an ancestor, and no ancestor before it holds the key. -/
def MeetsFirst (d : Document) (n target key : Text) : Prop :=
  target.toName ∈ (d.ancestors n).map Prod.fst ∧
    ∀ e ∈ (d.ancestors n).takeWhile (fun e => e.1 ≠ target.toName), e.2.get? key = none

instance (d : Document) (n target key : Text) : Decidable (d.MeetsFirst n target key) :=
  inferInstanceAs (Decidable (_ ∧ _))

/-- What a write changes: the value is seen from the sections that meet the written one first, and
all else stays. -/
structure SeenAfter (d d' : Document) (name key value : Text) : Prop where
  read?_self : d'.read? name key = some value
  read?_of_other : ∀ n k, k.toName ≠ key.toName → d'.read? n k = d.read? n k
  read?_of_first : ∀ n k, k.toName = key.toName → d'.MeetsFirst n name key →
    d'.read? n k = some value
  read?_of_not_first : ∀ n k, k.toName = key.toName → ¬ d'.MeetsFirst n name key →
    d'.read? n k = d.read? n k
  keeps_section : ∀ n s, d.section? n = some s →
    ∃ s', d'.section? n = some s' ∧ s'.isAbstract = s.isAbstract ∧ s'.parent = s.parent

/-- A key is looked up by its name. -/
theorem read?_congr (d : Document) (n : Text) {j k : Text} (h : j.toName = k.toName) :
    d.read? n j = d.read? n k := by
  rw [read?, read?, h]

section Accepted

variable (h : d.write? name key value = some d')

include h

theorem key_ne_nil_of_write? : key.toName ≠ [] := by
  intro hkey
  rw [write?_eq_none_iff.2 (Or.inr hkey)] at h
  cases h

theorem read?_of_other_key {n k : Text} (hk : k.toName ≠ key.toName) :
    d'.read? n k = d.read? n k := by
  by_cases hempty : k.toName = []
  · rw [read?, read?, if_pos hempty, if_pos hempty]
  · have hsame : (Section.afterWrite (d.section? name) key value).get? k =
        (d.section? name).bind (fun s => s.get? k) := by
      rw [Section.get?_afterWrite, if_neg hk]
    rw [read?_eq_findSome? d' n hempty, read?_eq_findSome? d n hempty]
    exact (rerouted_of_write? h n).findSome?_eq (f := fun s => s.get? k) hsame

theorem read?_of_meetsFirst {n : Text} (hfirst : d'.MeetsFirst n name key) :
    d'.read? n key = some value := by
  obtain ⟨hmem, hbefore⟩ := hfirst
  have hwritten : (Section.afterWrite (d.section? name) key value).get? key = some value := by
    rw [Section.get?_afterWrite, if_pos rfl]
  rw [read?_eq_findSome? d' n (key_ne_nil_of_write? h)]
  exact (rerouted_of_write? h n).findSome?_of_first (f := fun s => s.get? key) hwritten hmem hbefore

theorem read?_of_not_meetsFirst {n : Text} (hnot : ¬ d'.MeetsFirst n name key) :
    d'.read? n key = d.read? n key := by
  have hkey := key_ne_nil_of_write? h
  rw [read?_eq_findSome? d' n hkey, read?_eq_findSome? d n hkey]
  exact (rerouted_of_write? h n).findSome?_of_not_first (f := fun s => s.get? key) hnot

/-- The written section is the first of its own ancestors. -/
theorem meetsFirst_self : d'.MeetsFirst name name key := by
  obtain ⟨s, hs⟩ : ∃ s, d'.section? name = some s := by
    rw [section?_of_write? h, if_pos rfl]
    exact ⟨_, rfl⟩
  obtain ⟨rest, hrest⟩ : ∃ rest, d'.ancestors name = (name.toName, s) :: rest :=
    Sections.exists_path_eq_cons hs
  constructor
  · rw [hrest]
    exact List.mem_cons_self
  · rw [hrest, List.takeWhile_cons_of_neg (by simp)]
    exact nofun

theorem seenAfter_of_write? : d.SeenAfter d' name key value where
  read?_self := read?_of_meetsFirst h (meetsFirst_self h)
  read?_of_other _ _ hk := read?_of_other_key h hk
  read?_of_first n k hk hfirst := by
    rw [d'.read?_congr n hk, read?_of_meetsFirst h hfirst]
  read?_of_not_first n k hk hnot := by
    rw [d'.read?_congr n hk, d.read?_congr n hk, read?_of_not_meetsFirst h hnot]
  keeps_section n s hs := by
    rw [section?_of_write? h]
    split
    · rename_i hn
      have hold : d.section? name = some s := by rwa [section?, ← hn]
      refine ⟨_, rfl, ?_⟩
      rw [hold]
      exact ⟨rfl, rfl⟩
    · exact ⟨s, hs, rfl, rfl⟩

end Accepted

/-- A write is refused if the section or the key is empty as a name, and otherwise seen from where
the walk meets the written section first. -/
theorem visibility_of_write (d : Document) (name key value : Text) :
    (d.write? name key value = none ↔ name.toName = [] ∨ key.toName = []) ∧
      ∀ d', d.write? name key value = some d' → d.SeenAfter d' name key value :=
  ⟨write?_eq_none_iff, fun _ h => seenAfter_of_write? h⟩

/-- The write makes `b`, which `c` finds by way of `a` then. -/
theorem visibility_of_write_missing_parent :
    let d := parse "[a:b]\nj=1\n[c:a]\n".toList
    let d' := parse "[a:b]\nj=1\n[b]\nk=v\n[c:a]\n".toList
    d.write? " B".toList "K".toList "v".toList = some d' ∧ d.read? "c".toList "k".toList = none ∧
      d'.MeetsFirst "c".toList " B".toList "K".toList ∧
      (d.write? " B".toList "K".toList "v".toList = none ↔
        toName " B".toList = [] ∨ toName "K".toList = []) ∧
      d.SeenAfter d' " B".toList "K".toList "v".toList := by
  intro d d'
  have hwrite : d.write? " B".toList "K".toList "v".toList = some d' := by decide +kernel
  obtain ⟨hrefused, hseen⟩ := visibility_of_write d " B".toList "K".toList "v".toList
  exact ⟨hwrite, by decide +kernel, by decide +kernel, hrefused, hseen d' hwrite⟩

end Document

end Lineage
