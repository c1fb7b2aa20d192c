import Lineage.Document.Reading
import Lineage.Document.Snapshot
import Lineage.Document.Typed
import Lineage.Proofs.Lists
import Lineage.Proofs.Maps
import Lineage.Proofs.TextLines
import Mathlib.Logic.Relation

/-!
# Documents that can be reached

Documents are read from texts or restored from snapshots, and then changed by writing values and
by erasing values and sections. In every document reached in this way keys and parents are in
normal form (`Document.Reachable.normal`). Section names need not be: a header without a parent
keeps the blanks around its name that are no spaces or tabs. Where no text was read, they are
(`Document.Restored.named`).

A property of sections holds of all that is read if declaring gives it and setting keeps it
(`Document.all_parse`). What is declared and set is said by a line, so it holds no line end. It
holds of all that is reached if changes keep it too (`Document.Reachable.all`), for which it is
enough that new sections have it and that setting and erasing values keep it
(`Document.Change.all`).
-/

namespace Lineage

open Text

/-! ## Properties of all sections -/

/-- All sections, with their names, have a property. -/
def Sections.All (P : Text → Section → Prop) (m : Sections) : Prop :=
  ∀ name s, m.get? name = some s → P name s

namespace Sections.All

variable {P : Text → Section → Prop} {m : Sections}

theorem iff_forall_entries : m.All P ↔ ∀ e ∈ m.entries, P e.1 e.2 := by
  constructor
  · rintro h ⟨name, s⟩ he
    exact h name s ((OrderedMap.mem_entries_iff m).1 he)
  · intro h name s hs
    exact h (name, s) ((OrderedMap.mem_entries_iff m).2 hs)

instance [∀ name s, Decidable (P name s)] : Decidable (m.All P) :=
  decidable_of_iff _ iff_forall_entries.symm

theorem empty : Sections.All P ∅ := by
  intro name s h
  rw [OrderedMap.get?_empty] at h
  cases h

theorem insert (hm : Sections.All P m) {name : Text} {s : Section} (hs : P name s) :
    Sections.All P (m.insert name s) := by
  intro n t h
  rcases OrderedMap.eq_or_get?_of_get?_insert h with ⟨rfl, rfl⟩ | h
  · exact hs
  · exact hm n t h

theorem erase (hm : Sections.All P m) (name : Text) : Sections.All P (m.erase name) := by
  intro n t h
  exact hm n t (OrderedMap.get?_of_get?_erase h)

/-- There is no section of a name that none can have. -/
theorem get?_eq_none (hm : Sections.All P m) {name : Text} (hname : ∀ s, ¬ P name s) :
    m.get? name = none := by
  apply Option.eq_none_iff_forall_ne_some.2
  intro s hs
  exact hname s (hm name s hs)

end Sections.All

namespace Reading

variable {P : Text → Section → Prop}

theorem all_readHeader {r : Reading} (hr : r.sections.All P) {h : Header}
    (hh : P h.name (Section.declare h.isAbstract h.parent)) (n : Nat) :
    (r.readHeader n h).sections.All P := by
  unfold readHeader
  split
  · exact hr
  · exact hr.insert hh

section Lines

variable
  (hdeclare : ∀ text h, text.hasLineBreak = false → Header.parse? text = some h →
    P h.name (Section.declare h.isAbstract h.parent))
  (hset : ∀ name s text e, P name s → text.hasLineBreak = false → Entry.parse? text = some e →
    P name (s.set e.1 e.2))

include hdeclare hset

/-- One line: what a header declares has the property, and setting a value keeps it. -/
theorem all_readLine {r : Reading} (hr : r.sections.All P) (n : Nat) {raw : Text}
    (hraw : raw.hasLineBreak = false) : (r.readLine n (Line.parse raw)).sections.All P := by
  have htrim : (raw.trimMatches Mark.lineEdges.contains).hasLineBreak = false :=
    hasLineBreak_of_subset (fun c hc => mem_of_mem_trimMatches hc) hraw
  unfold Line.parse
  dsimp only
  split
  · exact hr
  · split
    · cases hh : Header.parse? (raw.trimMatches Mark.lineEdges.contains) with
      | none => exact hr
      | some h => exact all_readHeader hr (hdeclare _ h htrim hh) n
    · unfold readLine
      dsimp only
      split
      · exact hr
      · exact hr
      · rename_i name s e hcurrent hentry
        obtain ⟨-, hs⟩ := currentSection?_eq_some_iff.1 hcurrent
        exact hr.insert (hset _ _ _ e (hr _ _ hs) htrim hentry)

theorem all_readLines {r : Reading} (hr : r.sections.All P) {ls : List (Text × Nat)}
    (hls : ∀ l ∈ ls, l.1.hasLineBreak = false) : (r.readLines ls).sections.All P := by
  induction ls generalizing r with
  | nil => exact hr
  | cons l rest ih =>
    exact ih (all_readLine hdeclare hset hr l.2 (hls l List.mem_cons_self))
      fun m hm => hls m (List.mem_cons_of_mem _ hm)

end Lines

end Reading

theorem Document.all_parse {P : Text → Section → Prop}
    (hdeclare : ∀ text h, text.hasLineBreak = false → Header.parse? text = some h →
      P h.name (Section.declare h.isAbstract h.parent))
    (hset : ∀ name s text e, P name s → text.hasLineBreak = false → Entry.parse? text = some e →
      P name (s.set e.1 e.2))
    (text : Text) : (parse text).sections.All P := by
  refine Reading.all_readLines hdeclare hset Sections.All.empty fun l hl => ?_
  exact hasLineBreak_of_mem_lines (List.fst_mem_of_mem_zipIdx hl)

/-! ## Members of JSON values -/

namespace Json

variable {α : Type} {read? : Json → Option α}

theorem default_or_of_fieldD {fields : OrderedMap Text Json} {name : Text} {default v : α}
    (h : fieldD fields name default read? = some v) : v = default ∨ ∃ j, read? j = some v := by
  unfold fieldD at h
  split at h
  · rename_i j _
    exact Or.inr ⟨j, h⟩
  · cases h
    exact Or.inl rfl

theorem exists_of_mem_map? {j : Json} {es : List (Text × α)} (h : map? read? j = some es)
    {e : Text × α} (he : e ∈ es) : ∃ j', read? j' = some e.2 := by
  obtain ⟨members, -, hmembers⟩ := Option.bind_eq_some_iff.1 h
  obtain ⟨m, -, hm⟩ := mem_of_mem_mapM hmembers he
  obtain ⟨v, hv, rfl⟩ := Option.map_eq_some_iff.1 hm
  exact ⟨m.2, hv⟩

end Json

/-! ## Normal form -/

/-- Keys and the parent are names. -/
structure Section.Normal (s : Section) : Prop where
  parent_isName : ∀ p ∈ s.parent, IsName p
  key_isName : ∀ k v, s.values.get? k = some v → IsName k

/-- The keys and parents of all sections are names. -/
def Sections.Normal (m : Sections) : Prop := m.All (fun _ s => s.Normal)

def Document.Normal (d : Document) : Prop := d.sections.Normal

/-- The name that a section has in a document is a name, and its keys are. -/
structure Section.Named (name : Text) (s : Section) : Prop where
  name_isName : IsName name
  key_isName : ∀ e ∈ s.entries, IsName e.1

/-- The names and keys of all sections are names. -/
def Document.Named (d : Document) : Prop := d.sections.All Section.Named

namespace Section

instance (s : Section) : Decidable s.Normal :=
  decidable_of_iff ((∀ p ∈ s.parent, IsName p) ∧ ∀ e ∈ s.entries, IsName e.1) <| by
    constructor
    · rintro ⟨hparent, hkey⟩
      exact ⟨hparent, fun k v h => hkey (k, v) ((OrderedMap.mem_entries_iff _).2 h)⟩
    · rintro ⟨hparent, hkey⟩
      exact ⟨hparent, fun e he => hkey e.1 e.2 ((OrderedMap.mem_entries_iff _).1 he)⟩

instance (name : Text) (s : Section) : Decidable (s.Named name) :=
  decidable_of_iff (IsName name ∧ ∀ e ∈ s.entries, IsName e.1)
    ⟨fun ⟨hname, hkey⟩ => ⟨hname, hkey⟩, fun ⟨hname, hkey⟩ => ⟨hname, hkey⟩⟩

theorem parent_declare_isName (isAbstract : Bool) (parent : Option Text) :
    ∀ p ∈ (declare isAbstract parent).parent, IsName p := by
  intro p hp
  obtain ⟨hmap, hne⟩ := Option.filter_eq_some_iff.1 hp
  obtain ⟨q, -, rfl⟩ := Option.map_eq_some_iff.1 hmap
  exact isName_toName (by simpa using hne)

theorem normal_declare (isAbstract : Bool) (parent : Option Text) :
    (declare isAbstract parent).Normal where
  parent_isName := parent_declare_isName isAbstract parent
  key_isName k v h := by
    rw [declare, OrderedMap.get?_empty] at h
    cases h

namespace Normal

variable {s : Section} (hs : s.Normal)

include hs

theorem get?_nil : s.values.get? [] = none := by
  apply Option.eq_none_iff_forall_ne_some.2
  intro value hvalue
  exact (hs.key_isName [] value hvalue).1 rfl

theorem insert {key : Text} (hkey : IsName key) (value : Text) :
    Normal { s with values := s.values.insert key value } where
  parent_isName := hs.parent_isName
  key_isName k v h := by
    rcases OrderedMap.eq_or_get?_of_get?_insert h with ⟨rfl, -⟩ | h
    · exact hkey
    · exact hs.key_isName k v h

theorem set {key : Text} (hkey : key.toName ≠ []) (value : Text) : (s.set key value).Normal :=
  hs.insert (isName_toName hkey) value

theorem erase (key : Text) : (s.erase key).Normal where
  parent_isName := hs.parent_isName
  key_isName k v h := hs.key_isName k v (OrderedMap.get?_of_get?_erase h)

theorem addMissing (es : List Entry) : (s.addMissing es).Normal := by
  unfold Section.addMissing
  induction es generalizing s with
  | nil => exact hs
  | cons e rest ih =>
    rw [List.foldl_cons]
    split
    · exact ih hs
    · rename_i hne
      refine ih ⟨hs.parent_isName, fun k v h => ?_⟩
      rw [OrderedMap.get?_insertNew] at h
      split at h
      · rename_i hk
        exact hk ▸ isName_toName hne
      · exact hs.key_isName k v h

end Normal

theorem normal_of_ofJson? {j : Json} {s : Section} (h : ofJson? j = some s) : s.Normal := by
  simp only [ofJson?, Option.bind_eq_bind, Option.bind_eq_some_iff, Option.pure_def,
    Option.some.injEq] at h
  obtain ⟨fields, -, isAbstract, -, parent, -, values, -, rfl⟩ := h
  exact (normal_declare isAbstract parent).addMissing values

end Section

namespace Document

instance (d : Document) : Decidable d.Normal :=
  inferInstanceAs (Decidable (d.sections.All fun _ s => s.Normal))

instance (d : Document) : Decidable d.Named :=
  inferInstanceAs (Decidable (d.sections.All Section.Named))

/-! ## Sources -/

theorem normal_parse (text : Text) : (parse text).Normal := by
  refine all_parse (fun _ h _ _ => ?_) (fun _ s _ e hs _ he => ?_) text
  · exact Section.normal_declare h.isAbstract h.parent
  · obtain ⟨hne, hname⟩ := Entry.isName_of_parse? he
    exact hs.set (by rwa [hname]) e.2

theorem ofJson?_of_mem_snapshots? {j : Json} {es : List (Text × Section)}
    (h : snapshots? j = some es) {e : Text × Section} (he : e ∈ es) :
    ∃ j', Section.ofJson? j' = some e.2 := by
  simp only [snapshots?, Option.bind_eq_bind, Option.bind_eq_some_iff] at h
  obtain ⟨fields, -, hfields⟩ := h
  rcases Json.default_or_of_fieldD hfields with rfl | ⟨members, hmembers⟩
  · cases he
  · exact Json.exists_of_mem_map? hmembers he

theorem named_addSnapshot {d : Document} (hd : d.sections.All fun name s => IsName name ∧ s.Normal)
    (name : Text) {s : Section} (hs : s.Normal) :
    (d.addSnapshot name s).sections.All fun name s => IsName name ∧ s.Normal := by
  unfold addSnapshot
  split
  · exact hd
  · rename_i hne
    have hname := isName_toName hne
    split
    · rename_i first hfirst
      exact hd.insert ⟨hname, (hd _ _ hfirst).2.addMissing s.entries⟩
    · exact hd.insert ⟨hname, hs⟩

theorem named_ofSnapshots {es : List (Text × Section)} (hes : ∀ e ∈ es, e.2.Normal) :
    (ofSnapshots es).sections.All fun name s => IsName name ∧ s.Normal := by
  unfold ofSnapshots
  have hempty : (∅ : Document).sections.All fun name s => IsName name ∧ s.Normal :=
    Sections.All.empty
  generalize (∅ : Document) = d at hempty
  induction es generalizing d with
  | nil => exact hempty
  | cons e rest ih =>
    exact ih (fun f hf => hes f (List.mem_cons_of_mem _ hf)) _
      (named_addSnapshot hempty e.1 (hes e List.mem_cons_self))

/-- The sections of a snapshot are added under names, unlike those of a text. -/
theorem named_of_ofJson? {j : Json} {d : Document} (h : ofJson? j = some d) :
    d.sections.All fun name s => IsName name ∧ s.Normal := by
  obtain ⟨es, hes, rfl⟩ := Option.map_eq_some_iff.1 h
  refine named_ofSnapshots fun e he => ?_
  obtain ⟨j', hj'⟩ := ofJson?_of_mem_snapshots? hes he
  exact Section.normal_of_ofJson? hj'

theorem normal_of_ofJson? {j : Json} {d : Document} (h : ofJson? j = some d) : d.Normal :=
  fun name s hs => (named_of_ofJson? h name s hs).2

/-! ## Changes -/

/-- One accepted change of a document. A refused one leaves it as it is. -/
inductive Change : Document → Document → Prop
  | write {d d' : Document} {name key value : Text} :
      d.write? name key value = some d' → Change d d'
  | set {α : Type} [Value α] {d d' : Document} {name key : Text} {value : α} :
      d.set? name key value = some d' → Change d d'
  | setFormatted {α : Type} [Numeric α] {d d' : Document} {name key : Text} {format : NumberFormat}
      {value : α} : d.setFormatted? name key format value = some d' → Change d d'
  | setArray {α : Type} [Value α] {d d' : Document} {name key : Text} {separator : Char}
      {values : List α} : d.setArray? name key separator values = some d' → Change d d'
  | eraseValue {d d' : Document} {name key : Text} :
      d.eraseValue? name key = some d' → Change d d'
  | eraseSection {d d' : Document} {name : Text} : d.eraseSection? name = some d' → Change d d'
  | clear (d : Document) : Change d ∅

/-- The document can be reached from an empty one, a text or a snapshot by changes. -/
inductive Reachable : Document → Prop
  | empty : Reachable ∅
  | parse (text : Text) : Reachable (parse text)
  | ofJson {j : Json} {d : Document} : ofJson? j = some d → Reachable d
  | change {d d' : Document} : Reachable d → Change d d' → Reachable d'

/-- A property of sections that changes keep: the sections that a change creates have it, and
neither setting nor erasing a value of a section takes it away. -/
structure KeptByChanges (P : Text → Section → Prop) : Prop where
  fresh : ∀ name, IsName name → P name (Section.declare false none)
  set : ∀ name s key value, P name s → key.toName ≠ [] → P name (s.set key value)
  erase : ∀ name s key, P name s → P name (s.erase key)

section Kept

variable {P : Text → Section → Prop} (hP : KeptByChanges P) {d d' : Document}
  {name key value : Text}

include hP

theorem all_write? (h : d.write? name key value = some d') (hd : d.sections.All P) :
    d'.sections.All P := by
  unfold write? at h
  split at h
  · cases h
  · rename_i hne
    cases h
    have hname : name.toName ≠ [] := fun hn => hne (Or.inl hn)
    have hkey : key.toName.toName ≠ [] := by
      rw [toName_toName]
      exact fun hk => hne (Or.inr hk)
    apply hd.insert
    apply hP.set _ _ _ value _ hkey
    cases hs : d.sections.get? name.toName with
    | none => exact hP.fresh _ (isName_toName hname)
    | some s => exact hd _ _ hs

theorem all_eraseValue? (h : d.eraseValue? name key = some d') (hd : d.sections.All P) :
    d'.sections.All P := by
  obtain ⟨s, hs, -, hsections⟩ := exists_section_of_eraseValue? h
  rw [hsections]
  exact hd.insert (hP.erase _ _ key (hd _ _ hs))

omit hP in
theorem all_eraseSection? (h : d.eraseSection? name = some d') (hd : d.sections.All P) :
    d'.sections.All P := by
  unfold eraseSection? at h
  split at h
  · cases h
    exact hd.erase _
  · cases h

theorem Change.all (h : Change d d') (hd : d.sections.All P) : d'.sections.All P := by
  cases h with
  | write h => exact all_write? hP h hd
  | set h => exact all_write? hP h hd
  | setFormatted h => exact all_write? hP h hd
  | setArray h => exact all_write? hP h hd
  | eraseValue h => exact all_eraseValue? hP h hd
  | eraseSection h => exact all_eraseSection? h hd
  | clear => exact Sections.All.empty

theorem all_of_changes (h : Relation.ReflTransGen Change d d') (hd : d.sections.All P) :
    d'.sections.All P := by
  induction h with
  | refl => exact hd
  | tail _ hstep ih => exact hstep.all hP ih

/-- A property that texts and snapshots give and changes keep holds of all that can be reached. -/
theorem Reachable.all (hparse : ∀ text, (Document.parse text).sections.All P)
    (hjson : ∀ j d, ofJson? j = some d → d.sections.All P) (h : d.Reachable) :
    d.sections.All P := by
  induction h with
  | empty => exact Sections.All.empty
  | parse text => exact hparse text
  | ofJson h => exact hjson _ _ h
  | change _ hstep ih => exact hstep.all hP ih

end Kept

theorem keptByChanges_normal : KeptByChanges fun _ s => s.Normal where
  fresh _ _ := Section.normal_declare false none
  set _ _ _ value hs hkey := hs.set hkey value
  erase _ _ key hs := hs.erase key

theorem Reachable.normal {d : Document} (h : d.Reachable) : d.Normal :=
  h.all keptByChanges_normal normal_parse fun _ _ hd => normal_of_ofJson? hd

/-- The document can be reached from an empty one or a snapshot by changes: no text was read on
the way. -/
def Restored (d : Document) : Prop :=
  ∃ d₀, (d₀ = ∅ ∨ ∃ j, ofJson? j = some d₀) ∧ Relation.ReflTransGen Change d₀ d

theorem Restored.reachable {d : Document} (h : d.Restored) : d.Reachable := by
  obtain ⟨d₀, hstart, hrun⟩ := h
  induction hrun with
  | refl =>
    rcases hstart with rfl | ⟨j, hj⟩
    · exact .empty
    · exact .ofJson hj
  | tail _ hstep ih => exact ih.change hstep

theorem keptByChanges_named : KeptByChanges fun name s => IsName name ∧ s.Normal where
  fresh _ hname := ⟨hname, Section.normal_declare false none⟩
  set _ _ _ value hs hkey := ⟨hs.1, hs.2.set hkey value⟩
  erase _ _ key hs := ⟨hs.1, hs.2.erase key⟩

theorem Restored.named {d : Document} (h : d.Restored) :
    d.sections.All fun name s => IsName name ∧ s.Normal := by
  obtain ⟨d₀, hstart, hrun⟩ := h
  apply all_of_changes keptByChanges_named hrun
  rcases hstart with rfl | ⟨j, hj⟩
  · exact Sections.All.empty
  · exact named_of_ofJson? hj

end Document

end Lineage
