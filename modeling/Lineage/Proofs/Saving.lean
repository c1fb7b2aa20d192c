import Lineage.Document.Storage
import Lineage.Proofs.FilePaths
import Mathlib.Control.Monad.Basic

/-!
# What a save leaves in the file tree

A save ends in one of four ways (`SaveRun`): its temporary file cannot be made, or not be written,
or not be moved to where the path leads, or all this is done. Only the last changes the file tree,
as long as the temporary file gets a name that is free, so that it stands in no other file's place.

So after a save that failed the file tree is what it was, once the error is given up: the error of a
move holds the temporary file until then (`SaveOutcome.Undone`), and the file can be seen as long as
it does (`not_unchanged_of_held_file`). After a save that succeeded the path leads to one file that
is new or replaced, and it is loaded as what reading the written text gives (`SaveOutcome.SavedAs`).

* `files_of_saveUnder`: both of these, for all circumstances, when a save succeeds, and which errors
  hold a file.
* `save_eq_or`: where nothing outside the file tree fails, all that a save can do to it.
-/

namespace Lineage

namespace Document

variable {d : Document} {t : FileTree} {path : Text} {c : Circumstances} {options : WriteOptions}
  {o : SaveOutcome}

theorem decodeUtf8?_encodeUtf8 (s : Text) : decodeUtf8? (encodeUtf8 s) = some s := by
  have hdecoded : String.fromUTF8? (String.ofList s).toUTF8 = some (String.ofList s) := by
    rw [String.fromUTF8?, String.toUTF8_eq_toByteArray, dif_pos (String.ofList s).isValidUTF8]
    rfl
  rw [decodeUtf8?, encodeUtf8, hdecoded, Option.map_some, String.toList_ofList]

theorem load_of_content {text : Text} (h : t.content path = .ok (encodeUtf8 text)) :
    load t path = .ok (parse text) := by
  rw [load, loadText, h]
  simp only [decodeUtf8?_encodeUtf8, Except.map]

/-! ## How a save ends -/

/-- Whether the place that a temporary file gets is free. -/
def Circumstances.Free (c : Circumstances) (t : FileTree) (path : Text) : Prop :=
  ∀ place, temporary t path c = .ok place → t.node? place = none

theorem Circumstances.free_of_temporary {place : Location} (h : temporary t path c = .ok place)
    (hplace : (t.node? place).isNone = true) : c.Free t path := by
  intro k hk
  cases h.symm.trans hk
  exact Option.isNone_iff_eq_none.1 hplace

/-- The ways in which a save ends. -/
inductive SaveRun (c : Circumstances) (t : FileTree) (path text : Text) : SaveOutcome → Prop
  | notCreated {cause : FileError} (h : temporary t path c = .error cause) :
    SaveRun c t path text { files := t, result := .error (.io (FileTree.parentPath path) cause) }
  | notWritten {place : Location} {cause : FileError} (h : temporary t path c = .ok place)
    (hwriting : c.writing = .error cause) :
    SaveRun c t path text
      { files := t
        result := .error (.io (FileTree.parentPath path ++ '/' :: c.temporaryName) cause) }
  | notMoved {place : Location} {cause : FileError} (h : temporary t path c = .ok place)
    (hwriting : c.writing = .ok ())
    (hmoving : c.moving = .ok () → ∀ l, t.target path ≠ .ok l) :
    SaveRun c t path text
      { files := t.put place (.file (encodeUtf8 text))
        result := .error (.persist path cause), held := some place }
  | saved {place l : Location} (h : temporary t path c = .ok place) (hwriting : c.writing = .ok ())
    (hmoving : c.moving = .ok ()) (htarget : t.target path = .ok l) :
    SaveRun c t path text { files := t.put l (.file (encodeUtf8 text)), result := .ok () }

theorem saveRun_saveUnder (hfree : c.Free t path) (d : Document) (options : WriteOptions) :
    SaveRun c t path (d.toText options) (d.saveUnder c t path options) := by
  unfold saveUnder
  cases htemporary : temporary t path c with
  | error cause => exact .notCreated htemporary
  | ok place =>
    have hplace := hfree place htemporary
    cases hwriting : c.writing with
    | error cause =>
      dsimp only
      rw [FileTree.erase_put hplace]
      exact .notWritten htemporary hwriting
    | ok _ =>
      dsimp only
      split
      · rename_i cause hmove
        refine .notMoved htemporary hwriting ?_
        intro hmoving l htarget
        have hmoved := (FileTree.move_put_eq_ok_iff hplace (encodeUtf8 (d.toText options))).2
          ⟨l, htarget, rfl⟩
        rw [hmoving] at hmove
        cases hmove.symm.trans hmoved
      · rename_i saved hmove
        obtain ⟨_, hmoving, hmove⟩ := bind_eq_ok_iff.1 hmove
        obtain ⟨l, htarget, rfl⟩ := (FileTree.move_put_eq_ok_iff hplace _).1 hmove
        exact .saved htemporary hwriting hmoving htarget

/-- Where the temporary file gets a name longer than all others, a save puts the file at its place
or changes nothing. -/
theorem save_eq_or (d : Document) (t : FileTree) (path : Text) (options : WriteOptions) :
    (∃ l, t.target path = .ok l ∧
        d.save t path options = (t.put l (.file (encodeUtf8 (d.toText options))), .ok ())) ∨
      ∃ e, d.save t path options = (t, .error e) := by
  have hfree : Circumstances.Free { temporaryName := t.freshName path } t path := by
    intro place h
    obtain ⟨directory, -, h⟩ := bind_eq_ok_iff.1 h
    cases h
    exact t.node?_freshName path directory
  have hsave := saveRun_saveUnder hfree d options
  unfold save
  generalize saveUnder _ d t path options = o at hsave
  cases hsave with
  | notCreated | notWritten => exact .inr ⟨_, rfl⟩
  | notMoved h => exact .inr ⟨_, Prod.ext (FileTree.erase_put (hfree _ h) _) rfl⟩
  | saved _ _ _ htarget => exact .inl ⟨_, htarget, rfl⟩

/-! ## What it leaves -/

/-- What is seen after a save that succeeded: the path leads to a file that is loaded as what
reading the text gives, and everywhere else stands what stood there. -/
structure SaveOutcome.SavedAs (o : SaveOutcome) (t : FileTree) (path text : Text) : Prop where
  held_eq : o.held = none
  load_eq : load o.files path = .ok (parse text)
  node?_eq : ∃ l, o.files.resolve path = .ok l ∧ ∀ k, k ≠ l → o.files.node? k = t.node? k

/-- What is seen after a save that failed: everywhere stands what stood there, but for a temporary
file that the error holds, and nothing is left of that once the error is given up. -/
structure SaveOutcome.Undone (o : SaveOutcome) (t : FileTree) : Prop where
  node?_eq : ∀ k, o.held ≠ some k → o.files.node? k = t.node? k
  node?_of_held : ∀ k, o.held = some k → t.node? k = none
  released_eq : o.released = t

theorem content_put {l : Location} (h : t.target path = .ok l) (bytes : ByteArray) :
    (t.put l (.file bytes)).resolve path = .ok l ∧
      (t.put l (.file bytes)).content path = .ok bytes := by
  have hnot := FileTree.isDirectory_of_target h
  have hnode : (t.put l (.file bytes)).node? l = some (.file bytes) := by
    rw [FileTree.node?_put_of_isDirectory hnot, if_pos rfl]
  have hkeeps : t.Keeps (t.put l (.file bytes)) := by
    intro k hk
    rw [FileTree.isDirectory_put_file hnot]
    exact hk
  have hresolve := FileTree.resolve_of_target h hkeeps (Option.isSome_of_eq_some hnode)
  refine ⟨hresolve, bind_eq_ok_iff.2 ⟨l, hresolve, ?_⟩⟩
  rw [hnode]

namespace SaveRun

variable {text : Text}

theorem result_eq_ok_iff (h : SaveRun c t path text o) :
    o.result = .ok () ↔
      (∃ place, temporary t path c = .ok place) ∧ c.writing = .ok () ∧ c.moving = .ok () ∧
        ∃ l, t.target path = .ok l := by
  cases h with
  | notCreated h => simp [h]
  | notWritten h hwriting => simp [hwriting]
  | notMoved h hwriting hmoving => simpa using fun _ _ _ => hmoving
  | saved h hwriting hmoving htarget => simp [h, hwriting, hmoving, htarget]

theorem savedAs (h : SaveRun c t path text o) (hok : o.result = .ok ()) :
    o.SavedAs t path text := by
  cases h with
  | notCreated | notWritten | notMoved => cases hok
  | @saved _ l h hwriting hmoving htarget =>
    obtain ⟨hresolve, hcontent⟩ := content_put htarget (encodeUtf8 text)
    refine ⟨rfl, load_of_content hcontent, l, hresolve, ?_⟩
    intro k hk
    show (t.put l _).node? k = t.node? k
    rw [FileTree.node?_put_of_isDirectory (FileTree.isDirectory_of_target htarget), if_neg hk]

theorem undone (h : SaveRun c t path text o) (hfree : c.Free t path) {e : StorageError}
    (herror : o.result = .error e) : o.Undone t := by
  cases h with
  | notCreated | notWritten =>
    refine ⟨fun _ _ => rfl, ?_, rfl⟩
    intro k hk
    cases hk
  | @notMoved place _ h hwriting hmoving =>
    have hplace := hfree place h
    have hnot := FileTree.isDirectory_of_free hplace
    refine ⟨?_, ?_, FileTree.erase_put hplace _⟩
    · intro k hk
      show (t.put place _).node? k = t.node? k
      rw [FileTree.node?_put_of_isDirectory hnot, if_neg fun heq => hk (congrArg some heq.symm)]
    · intro k hk
      cases hk
      exact hplace
  | saved => cases herror

/-- Only the error of a move holds the temporary file. -/
theorem held_ne_none_iff (h : SaveRun c t path text o) {e : StorageError}
    (herror : o.result = .error e) : o.held ≠ none ↔ ∃ cause, e = .persist path cause := by
  cases h with
  | notCreated | notWritten | notMoved =>
    cases herror
    simp
  | saved => cases herror

end SaveRun

theorem SaveOutcome.Undone.files_eq (h : o.Undone t) (hheld : o.held = none) : o.files = t := by
  rw [← h.released_eq, SaveOutcome.released, hheld]

/-! ## Loading what may not be there -/

theorem isNotFound_iff_of_load {e : StorageError} (h : load t path = .error e) :
    e.isNotFound = true ↔ t.content path = .error .notFound := by
  unfold load loadText at h
  cases hcontent : t.content path with
  | error cause =>
    rw [hcontent] at h
    cases h
    cases cause <;> simp [StorageError.isNotFound]
  | ok bytes =>
    rw [hcontent] at h
    dsimp only at h
    split at h
    · cases h
    · cases h
      simp [StorageError.isNotFound]

theorem loadOrEmpty_of_ok (h : load t path = .ok d) : loadOrEmpty t path = .ok d := by
  rw [loadOrEmpty, h]

theorem loadOrEmpty_of_error {e : StorageError} (h : load t path = .error e) :
    loadOrEmpty t path = if e.isNotFound = true then .ok ∅ else .error e := by
  rw [loadOrEmpty, h]

/-! ## Saving and loading -/

/-- A save whose temporary file gets a free name succeeds if that file can be made, written and
moved to where the path leads. Then what is loaded is what reading the written text gives, and
nothing else has changed. If it fails, nothing has changed but that the error of a move holds the
temporary file until it is given up. A document whose file may not be there is loaded like any
other, and is empty if the file is not there. -/
theorem files_of_saveUnder (hfree : c.Free t path) (d : Document) (options : WriteOptions) :
    let o := d.saveUnder c t path options
    (o.result = .ok () ↔
        (∃ place, temporary t path c = .ok place) ∧ c.writing = .ok () ∧ c.moving = .ok () ∧
          ∃ l, t.target path = .ok l) ∧
      (o.result = .ok () → o.SavedAs t path (d.toText options)) ∧
      (∀ e, o.result = .error e →
        o.Undone t ∧ (o.held = none → o.files = t) ∧
          (o.held ≠ none ↔ ∃ cause, e = .persist path cause)) ∧
      ∀ (t : FileTree) (path : Text),
        (∀ d, load t path = .ok d → loadOrEmpty t path = .ok d) ∧
          ∀ e, load t path = .error e →
            (e.isNotFound = true ↔ t.content path = .error .notFound) ∧
              loadOrEmpty t path = if e.isNotFound = true then .ok ∅ else .error e := by
  intro o
  have hsave : SaveRun c t path (d.toText options) o := saveRun_saveUnder hfree d options
  refine ⟨hsave.result_eq_ok_iff, hsave.savedAs, ?_, ?_⟩
  · intro e he
    have hundone := hsave.undone hfree he
    exact ⟨hundone, hundone.files_eq, hsave.held_ne_none_iff he⟩
  · intro t path
    refine ⟨fun d => loadOrEmpty_of_ok, ?_⟩
    intro e he
    exact ⟨isNotFound_iff_of_load he, loadOrEmpty_of_error he⟩

/-- A file in a directory is replaced, where the directory itself is not. Nothing is made in a
directory that is not there. -/
theorem files_of_saveUnder_directory :
    let t : FileTree :=
      { nodes := .ofList [(["d".toList], .directory),
          (["d".toList, "a.ini".toList], .file (encodeUtf8 "[old]\n".toList))] }
    let c : Circumstances := { temporaryName := ".tmpA1b2C3".toList }
    let d := parse "[b:a]\nk=1\n".toList
    let o := d.saveUnder c t "d/a.ini".toList {}
    let refused := d.saveUnder c t "d".toList {}
    let astray := d.saveUnder c t "e/a.ini".toList {}
    c.Free t "d/a.ini".toList ∧ o.result = .ok () ∧
      o.SavedAs t "d/a.ini".toList (d.toText {}) ∧
      c.Free t "d".toList ∧ refused.result = .error (.persist "d".toList .isADirectory) ∧
      refused.held = some [c.temporaryName] ∧ refused.Undone t ∧
      c.Free t "e/a.ini".toList ∧ astray.result = .error (.io "e".toList .notFound) ∧
      astray.files = t ∧ loadOrEmpty t "d/b.ini".toList = .ok ∅ := by
  intro t c d o refused astray
  have hplace : temporary t "d/a.ini".toList c = .ok ["d".toList, ".tmpA1b2C3".toList] := by
    decide +kernel
  have hfree : c.Free t "d/a.ini".toList := c.free_of_temporary hplace (by decide +kernel)
  have hok : o.result = .ok () := by decide +kernel
  have htop : temporary t "d".toList c = .ok [".tmpA1b2C3".toList] := by decide +kernel
  have hfree_top : c.Free t "d".toList := c.free_of_temporary htop (by decide +kernel)
  have hrefused : refused.result = .error (.persist "d".toList .isADirectory) := by decide +kernel
  have hnowhere : temporary t "e/a.ini".toList c = .error .notFound := by decide +kernel
  have hfree_nowhere : c.Free t "e/a.ini".toList := by
    intro place h
    cases hnowhere.symm.trans h
  have hastray : astray.result = .error (.io "e".toList .notFound) := by decide +kernel
  obtain ⟨-, hsaved, -, -⟩ := files_of_saveUnder hfree d {}
  obtain ⟨-, -, hundone, hload⟩ := files_of_saveUnder hfree_top d {}
  obtain ⟨-, -, hunchanged, -⟩ := files_of_saveUnder hfree_nowhere d {}
  obtain ⟨-, hfiles, -⟩ := hunchanged _ hastray
  have htext : loadText t "d/b.ini".toList = .error (.io "d/b.ini".toList .notFound) := by
    decide +kernel
  have hmissing : load t "d/b.ini".toList = .error (.io "d/b.ini".toList .notFound) := by
    rw [load, htext]
    rfl
  obtain ⟨-, hempty⟩ := (hload t "d/b.ini".toList).2 _ hmissing
  exact ⟨hfree, hok, hsaved hok, hfree_top, hrefused, by decide +kernel, (hundone _ hrefused).1,
    hfree_nowhere, hastray, hfiles (by decide +kernel), hempty⟩

/-- A file cannot be moved over a directory. While the error is held that says so, the temporary
file stands where nothing stood. -/
theorem not_unchanged_of_held_file :
    let t : FileTree := { nodes := .ofList [(["d".toList], .directory)] }
    let c : Circumstances := { temporaryName := ".tmpA1b2C3".toList }
    let o := (parse "[b:a]\nk=1\n".toList).saveUnder c t "d".toList {}
    c.Free t "d".toList ∧ o.result = .error (.persist "d".toList .isADirectory) ∧
      (t.node? [c.temporaryName]).isNone = true ∧
      (o.files.node? [c.temporaryName]).isSome = true ∧ o.files ≠ t := by
  intro t c o
  have hplace : temporary t "d".toList c = .ok [c.temporaryName] := by decide +kernel
  have hnone : (t.node? [c.temporaryName]).isNone = true := by decide +kernel
  have hsome : (o.files.node? [c.temporaryName]).isSome = true := by decide +kernel
  refine ⟨c.free_of_temporary hplace hnone, by decide +kernel, hnone, hsome, ?_⟩
  intro heq
  rw [heq, Option.isNone_iff_eq_none.1 hnone] at hsome
  cases hsome

end Document

end Lineage
