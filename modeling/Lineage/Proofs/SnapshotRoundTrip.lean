import Lineage.Proofs.NormalForm
import Lineage.Proofs.ReadingBlocks

/-!
# Snapshots are restored

Restoring a snapshot takes all names in normal form, drops those that are empty and merges sections
and keys that meet under one name. None of this happens to a snapshot of a document whose names,
keys and parents are in normal form: the members of its objects are in order and distinct, so that
each section and each key is new when it is added (`ofSnapshots_entries`,
`Section.Settled.addMissing_entries`). Every document that is reached from snapshots by changes is
of this kind (`Restored.named`), and so comes back as it was (`ofJson?_toJson_of_restored`).
-/

namespace Lineage

open Text

/-! ## Objects -/

namespace Json

theorem fieldD_of_get? {α : Type} {fields : OrderedMap Text Json} {name : Text} {value : Json}
    (h : fields.get? name = some value) (default : α) (read? : Json → Option α) :
    fieldD fields name default read? = read? value := by
  rw [fieldD, h]

/-- An object with a member for each entry of a map is read as these entries, if each value is. -/
theorem map?_object {α : Type} {read? : Json → Option α} {write : α → Json}
    (m : OrderedMap Text α) (h : ∀ e ∈ m.entries, read? (write e.2) = some e.2) :
    map? read? (.object (m.entries.map (fun e => (e.1, write e.2)))) = some m.entries := by
  have hsorted : (m.entries.map fun e => (e.1, write e.2)).Pairwise (fun a b => a.1 < b.1) :=
    List.pairwise_map.2 m.sorted_entries
  show (OrderedMap.ofList _).entries.mapM _ = _
  rw [OrderedMap.entries_ofList hsorted, List.mapM_map]
  apply mapM_eq_self
  intro e he
  show (read? (write e.2)).map _ = _
  rw [h e he]
  rfl

end Json

namespace Section

/-! ## Entries that are added -/

theorem addMissing_cons (s : Section) (e : Entry) (es : List Entry) :
    s.addMissing (e :: es) =
      (if e.1.toName = [] then s
        else { s with values := s.values.insertNew e.1.toName e.2 }).addMissing es := rfl

/-- Adding entries changes nothing but the values. -/
theorem addMissing_eq (s : Section) (es : List Entry) :
    s.addMissing es = { s with values := (s.addMissing es).values } := by
  induction es generalizing s with
  | nil => rfl
  | cons e rest ih =>
    rw [addMissing_cons]
    split
    · exact ih s
    · exact ih { s with values := s.values.insertNew e.1.toName e.2 }

/-- A key keeps the value that it has; else the first entry of its name counts. -/
theorem get?_addMissing (s : Section) (es : List Entry) {key : Text} (hkey : key ≠ []) :
    (s.addMissing es).values.get? key =
      (s.values.get? key).or ((es.find? (fun e => e.1.toName = key)).map Prod.snd) := by
  induction es generalizing s with
  | nil => exact (Option.or_none).symm
  | cons e rest ih =>
    rw [addMissing_cons, ih]
    by_cases hname : e.1.toName = key
    · subst hname
      rw [List.find?_cons_of_pos (by simp), if_neg hkey, OrderedMap.get?_insertNew, if_pos rfl]
      cases s.values.get? e.1.toName <;> rfl
    · rw [List.find?_cons_of_neg (by simpa using hname)]
      split
      · rfl
      · rw [OrderedMap.get?_insertNew, if_neg (Ne.symm hname)]

theorem find?_entries {m : OrderedMap Text Text} (hname : ∀ e ∈ m.entries, toName e.1 = e.1)
    (key : Text) : (m.entries.find? (fun e => e.1.toName = key)).map Prod.snd = m.get? key := by
  cases hfind : m.entries.find? (fun e => e.1.toName = key) with
  | none =>
    symm
    apply Option.eq_none_iff_forall_ne_some.2
    intro value hvalue
    have hmem : (key, value) ∈ m.entries := (OrderedMap.mem_entries_iff m).2 hvalue
    have hother : toName key ≠ key := by simpa using List.find?_eq_none.1 hfind _ hmem
    exact hother (hname _ hmem)
  | some e =>
    have hmem : e ∈ m.entries := List.mem_of_find?_eq_some hfind
    have hkey : toName e.1 = key := by simpa using List.find?_some hfind
    rw [hname e hmem] at hkey
    rw [← hkey]
    exact ((OrderedMap.mem_entries_iff m).1 hmem).symm

/-- The entries of a section are added to one that declares the same. -/
theorem ofJson?_toJson_eq (s : Section) :
    ofJson? s.toJson = some ((declare s.isAbstract s.parent).addMissing s.entries) := by
  have hsorted : [
      ("is_abstract".toList, Json.bool s.isAbstract),
      ("parent".toList, .ofOption s.parent),
      ("values".toList, .object (s.entries.map (fun e => (e.1, .string e.2))))].Pairwise
        (fun a b => a.1 < b.1) :=
    List.pairwise_map.1 (show fieldNames.Pairwise (· < ·) by decide)
  have hparent : Json.stringOrNull? (.ofOption s.parent) = some s.parent := by
    cases s.parent <;> rfl
  have hvalues : Json.map? Json.string?
      (.object (s.entries.map (fun e => (e.1, .string e.2)))) = some s.entries :=
    Json.map?_object s.values fun _ _ => rfl
  have hget := OrderedMap.get?_ofList hsorted
  unfold ofJson? toJson Json.record?
  simp only [Option.bind_eq_bind, Option.bind_some]
  rw [Json.fieldD_of_get? ((hget "is_abstract".toList).trans rfl),
    Json.fieldD_of_get? ((hget "parent".toList).trans rfl),
    Json.fieldD_of_get? ((hget "values".toList).trans rfl), hparent, hvalues]
  rfl

theorem erase_eq_self_iff (s : Section) (key : Text) : s.erase key = s ↔ s.get? key = none := by
  constructor
  · intro h
    rw [← h, get?_erase, if_pos rfl]
  · intro h
    show { s with values := s.values.erase key.toName } = s
    rw [OrderedMap.erase_eq_self _ h]

/-- The parent is a name, and every key stands for itself. In distinction from the normal form, a
key may be empty. -/
structure Settled (s : Section) : Prop where
  parent_isName : ∀ p ∈ s.parent, IsName p
  toName_key : ∀ k v, s.values.get? k = some v → toName k = k

theorem Normal.settled {s : Section} (hs : s.Normal) : s.Settled where
  parent_isName := hs.parent_isName
  toName_key k v h := (hs.key_isName k v h).2

namespace Settled

variable {s : Section} (hs : s.Settled)

include hs

theorem toName_entries : ∀ e ∈ s.entries, toName e.1 = e.1 := by
  intro e he
  exact hs.toName_key e.1 e.2 ((OrderedMap.mem_entries_iff _).1 he)

/-- All entries but that of the empty key are added as they are where there were none. -/
theorem addMissing_entries :
    (declare s.isAbstract s.parent).addMissing s.entries = s.erase [] := by
  have hvalues : ((declare s.isAbstract s.parent).addMissing s.entries).values =
      s.values.erase [] := by
    apply OrderedMap.ext_get?
    intro key
    rw [OrderedMap.get?_erase]
    split
    · rename_i hkey
      rw [hkey]
      exact ((normal_declare s.isAbstract s.parent).addMissing s.entries).get?_nil
    · rename_i hkey
      rw [get?_addMissing _ _ hkey, declare, OrderedMap.get?_empty, Option.none_or]
      exact find?_entries hs.toName_entries key
  rw [addMissing_eq, hvalues, declare_of_names _ hs.parent_isName]
  rfl

theorem ofJson?_toJson : ofJson? s.toJson = some (s.erase []) := by
  rw [ofJson?_toJson_eq, hs.addMissing_entries]

end Settled

theorem ofJson?_toJson {s : Section} (hs : s.Normal) : ofJson? s.toJson = some s := by
  rw [hs.settled.ofJson?_toJson, (erase_eq_self_iff s []).2 hs.get?_nil]

end Section

namespace Document

variable {d : Document}

theorem snapshots?_toJson (hd : d.Normal) : snapshots? d.toJson = some d.sections.entries := by
  have hsections : Json.map? Section.ofJson?
      (.object (d.sections.entries.map (fun e => (e.1, e.2.toJson)))) =
        some d.sections.entries := by
    apply Json.map?_object
    intro e he
    exact Section.ofJson?_toJson (hd e.1 e.2 ((OrderedMap.mem_entries_iff _).1 he))
  have hget := OrderedMap.get?_ofList (List.pairwise_singleton (fun a b => a.1 < b.1)
    ("sections".toList, Json.object (d.sections.entries.map (fun e => (e.1, e.2.toJson)))))
  unfold snapshots? toJson Json.record?
  simp only [Option.bind_eq_bind, Option.bind_some]
  rw [Json.fieldD_of_get? ((hget "sections".toList).trans rfl)]
  exact hsections

/-! ## Sections that are added -/

theorem addSnapshot_of_new {name : Text} (hname : IsName name) (hnew : d.sections.get? name = none)
    (s : Section) : d.addSnapshot name s = { sections := d.sections.insert name s } := by
  rw [addSnapshot, hname.2, if_neg hname.1, hnew]

theorem foldl_addSnapshot {es : List (Text × Section)} (hs : es.Pairwise (fun a b => a.1 < b.1))
    (hname : ∀ e ∈ es, IsName e.1) (hnew : ∀ e ∈ es, d.sections.get? e.1 = none) :
    es.foldl (fun d e => d.addSnapshot e.1 e.2) d =
      { sections := es.foldl (fun m e => m.insert e.1 e.2) d.sections } := by
  induction es generalizing d with
  | nil => rfl
  | cons e rest ih =>
    obtain ⟨he, hrest⟩ := List.pairwise_cons.1 hs
    rw [List.foldl_cons, List.foldl_cons, addSnapshot_of_new (hname e List.mem_cons_self)
      (hnew e List.mem_cons_self)]
    apply ih hrest
    · exact fun f hf => hname f (List.mem_cons_of_mem _ hf)
    · -- Names come in order, so the one that was just added is none of the later ones.
      intro f hf
      have hne : f.1 ≠ e.1 := fun h => KeyOrder.irrefl e.1 (h ▸ he f hf)
      rw [OrderedMap.get?_insert_of_ne _ hne]
      exact hnew f (List.mem_cons_of_mem _ hf)

theorem ofSnapshots_entries (hname : d.sections.All fun name _ => IsName name) :
    ofSnapshots d.sections.entries = d := by
  unfold ofSnapshots
  rw [foldl_addSnapshot d.sections.sorted_entries]
  · exact congrArg Document.mk d.sections.ofList_entries
  · exact Sections.All.iff_forall_entries.1 hname
  · intro e _
    exact OrderedMap.get?_empty e.1

/-- The snapshot of a document that was itself restored, and changed since, is restored to the
document. -/
theorem ofJson?_toJson_of_restored (hd : d.Restored) : ofJson? d.toJson = some d := by
  have hnormal : d.Normal := fun name s hs => (hd.named name s hs).2
  rw [ofJson?, snapshots?_toJson hnormal, Option.map_some,
    ofSnapshots_entries fun name s hs => (hd.named name s hs).1]

/-- A snapshot in which two spellings of a name, two of a key, and an empty key meet. -/
def unevenSnapshot : Json :=
  .object [("sections".toList, .object [
    ("Cat".toList, .object [
      ("is_abstract".toList, .bool true),
      ("parent".toList, .string " Kitten".toList),
      ("values".toList, .object [
        ("".toList, .string "x".toList), ("LEGS".toList, .string "4".toList),
        ("legs".toList, .string "5".toList)])]),
    ("cat".toList, .object [
      ("values".toList, .object [("Tail".toList, .string "".toList)])])])]

/-- The document that is restored from it, after a value was written to the parent of the cat. -/
def evenDocument : Document where
  sections := .ofList
    [("cat".toList, { isAbstract := true, parent := some "kitten".toList
                      values := .ofList [("legs".toList, "4".toList), ("tail".toList, [])] }),
      ("kitten".toList, { values := .ofList [("k".toList, "v".toList)] })]

theorem ofJson?_toJson_of_restored_uneven :
    evenDocument.Restored ∧ ofJson? evenDocument.toJson = some evenDocument := by
  obtain ⟨d₀, hj, hwrite⟩ : ∃ d₀, ofJson? unevenSnapshot = some d₀ ∧
      d₀.write? "Kitten".toList "K".toList "v".toList = some evenDocument :=
    ⟨{ sections := evenDocument.sections.erase "kitten".toList }, by decide +kernel⟩
  have hd : evenDocument.Restored :=
    ⟨d₀, Or.inr ⟨unevenSnapshot, hj⟩, .single (.write hwrite)⟩
  exact ⟨hd, ofJson?_toJson_of_restored hd⟩

end Document

end Lineage
