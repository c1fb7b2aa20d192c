import Lineage.FileTree
import Lineage.Proofs.Maps

/-!
# Where paths lead

A path that lets a file be put is one name after another to a directory, and then a name that stands
for no directory (`target_eq_ok_iff`). All names but the last are walked from directory to
directory, so that what files there are makes no difference to where a file can be put
(`target_congr`), and once a file stands there the path leads to it (`resolve_of_target`).

* `walk_of_keeps`: a tree with more directories leads along the same names to the same directory.
* `erase_put`, `move_put_eq_ok_iff`: a file at a free place that is taken away again, and one that
  is moved.
* `node?_freshName`: a name longer than all others is free in every directory.
-/

namespace Lineage

theorem bind_eq_ok_iff {ε α β : Type} {x : Except ε α} {f : α → Except ε β} {b : β} :
    (x >>= f) = .ok b ↔ ∃ a, x = .ok a ∧ f a = .ok b := by
  constructor
  · intro h
    cases x with
    | error e => cases h
    | ok a => exact ⟨a, rfl, h⟩
  · rintro ⟨a, rfl, h⟩
    exact h

theorem guard_eq_ok_iff {ε α : Type} {p : Prop} [Decidable p] {e : ε} {x : Except ε α} {a : α} :
    (if p then .error e else x) = .ok a ↔ ¬ p ∧ x = .ok a := by
  by_cases h : p <;> simp [h]

namespace FileTree

variable {t t' : FileTree} {l k : Location} {name path : Text} {names : List Text}

theorem isDirectory_iff : t.isDirectory l = true ↔ t.node? l = some .directory := by
  unfold isDirectory
  split
  · rename_i h
    simp [h]
  · rename_i h
    simp only [Bool.false_eq_true, false_iff]
    exact h

/-! ## Walking -/

theorem directory_eq_ok_iff : t.directory l = .ok k ↔ t.isDirectory l = true ∧ l = k := by
  rw [isDirectory_iff]
  unfold directory
  split <;> simp_all

theorem child_eq_ok_iff :
    t.child l name = .ok k ↔
      t.isDirectory l = true ∧ byteSize name ≤ nameLimit ∧ l ++ [name] = k := by
  unfold child
  rw [bind_eq_ok_iff]
  constructor
  · rintro ⟨l', hl, h⟩
    obtain ⟨hdirectory, rfl⟩ := directory_eq_ok_iff.1 hl
    obtain ⟨hsize, h⟩ := guard_eq_ok_iff.1 h
    cases h
    exact ⟨hdirectory, Nat.le_of_not_lt hsize, rfl⟩
  · rintro ⟨hdirectory, hsize, rfl⟩
    refine ⟨l, directory_eq_ok_iff.2 ⟨hdirectory, rfl⟩, ?_⟩
    exact guard_eq_ok_iff.2 ⟨Nat.not_lt.2 hsize, rfl⟩

theorem isDirectory_of_step (h : t.step l name = .ok k) : t.isDirectory l = true := by
  obtain ⟨l', hl, -⟩ := bind_eq_ok_iff.1 h
  exact (directory_eq_ok_iff.1 hl).1

/-- That every directory of one tree is a directory of another. -/
def Keeps (t t' : FileTree) : Prop := ∀ l, t.isDirectory l = true → t'.isDirectory l = true

theorem Keeps.step_eq (hkeeps : t.Keeps t') (h : t.step l name = .ok k)
    (hk : t.isDirectory k = true) : t'.step l name = .ok k := by
  obtain ⟨l', hl, h⟩ := bind_eq_ok_iff.1 h
  obtain ⟨hdirectory, rfl⟩ := directory_eq_ok_iff.1 hl
  refine bind_eq_ok_iff.2 ⟨l, directory_eq_ok_iff.2 ⟨hkeeps l hdirectory, rfl⟩, ?_⟩
  by_cases hidle : isIdle name = true
  · rw [if_pos hidle] at h ⊢
    exact h
  · rw [if_neg hidle] at h ⊢
    by_cases hup : name = ['.', '.']
    · rw [if_pos hup] at h ⊢
      exact h
    · rw [if_neg hup] at h ⊢
      obtain ⟨place, hplace, h⟩ := bind_eq_ok_iff.1 h
      obtain ⟨-, hsize, rfl⟩ := child_eq_ok_iff.1 hplace
      refine bind_eq_ok_iff.2 ⟨_, child_eq_ok_iff.2 ⟨hkeeps l hdirectory, hsize, rfl⟩, ?_⟩
      split at h
      · cases h
        have hnode := isDirectory_iff.1 (hkeeps _ hk)
        rw [if_pos (by rw [hnode]; rfl)]
      · cases h

/-- A walk that ends in a directory starts in one. -/
theorem isDirectory_of_foldlM (h : names.foldlM t.step l = .ok k) (hk : t.isDirectory k = true) :
    t.isDirectory l = true := by
  cases names with
  | nil =>
    cases h
    exact hk
  | cons name names =>
    rw [List.foldlM_cons] at h
    obtain ⟨l', hl, -⟩ := bind_eq_ok_iff.1 h
    exact isDirectory_of_step hl

theorem Keeps.foldlM_eq (hkeeps : t.Keeps t') (h : names.foldlM t.step l = .ok k)
    (hk : t.isDirectory k = true) : names.foldlM t'.step l = .ok k := by
  induction names generalizing l with
  | nil => exact h
  | cons name names ih =>
    rw [List.foldlM_cons] at h ⊢
    obtain ⟨l', hl, h⟩ := bind_eq_ok_iff.1 h
    refine bind_eq_ok_iff.2 ⟨l', ?_, ih h⟩
    exact hkeeps.step_eq hl (isDirectory_of_foldlM h hk)

theorem walk_of_keeps (hkeeps : t.Keeps t') (h : t.walk names = .ok l)
    (hl : t.isDirectory l = true) : t'.walk names = .ok l :=
  hkeeps.foldlM_eq h hl

/-- A walk to a directory goes on to what stands there under a name. -/
theorem walk_concat (h : t.walk names = .ok l) (hl : t.isDirectory l = true)
    (hidle : isIdle name = false) (hup : name ≠ ['.', '.']) (hsize : byteSize name ≤ nameLimit)
    (hnode : (t.node? (l ++ [name])).isSome = true) :
    t.walk (names ++ [name]) = .ok (l ++ [name]) := by
  have hstep : t.step l name = .ok (l ++ [name]) := by
    refine bind_eq_ok_iff.2 ⟨l, directory_eq_ok_iff.2 ⟨hl, rfl⟩, ?_⟩
    rw [if_neg (by rw [hidle]; exact Bool.false_ne_true), if_neg hup]
    exact bind_eq_ok_iff.2 ⟨_, child_eq_ok_iff.2 ⟨hl, hsize, rfl⟩, if_pos hnode⟩
  rw [walk, List.foldlM_append]
  refine bind_eq_ok_iff.2 ⟨l, h, ?_⟩
  rw [List.foldlM_cons]
  exact bind_eq_ok_iff.2 ⟨_, hstep, rfl⟩

/-! ## The place of a file -/

theorem intercalate_concat_nil (mark : Char) (hnames : names ≠ []) :
    [mark].intercalate (names ++ [[]]) = [mark].intercalate names ++ [mark] := by
  induction names with
  | nil => exact absurd rfl hnames
  | cons name names ih =>
    cases names with
    | nil => simp [List.intercalate_cons_cons]
    | cons next names =>
      have hrest := ih (List.cons_ne_nil _ _)
      rw [List.cons_append] at hrest
      rw [List.cons_append, List.cons_append, List.intercalate_cons_cons,
        List.intercalate_cons_cons, hrest, List.append_assoc _ _ [mark]]

/-- The last name of a path is empty only after a slash and in the empty path. -/
theorem ne_nil_of_splitOn (hpath : path ≠ []) (hend : path.getLast? ≠ some '/')
    (hpieces : path.splitOn '/' = names ++ [name]) : name ≠ [] := by
  rintro rfl
  have hjoin : ['/'].intercalate (names ++ [[]]) = path := by
    rw [← hpieces]
    exact List.intercalate_splitOn '/'
  by_cases hnames : names = []
  · rw [hnames] at hjoin
    exact hpath hjoin.symm
  · rw [intercalate_concat_nil '/' hnames] at hjoin
    apply hend
    rw [← hjoin, List.getLast?_concat]

/-- That a path leads to a directory and lets a file be put there under a name. -/
structure Admits (t : FileTree) (path : Text) (names : List Text) (name : Text) (l : Location) :
    Prop where
  pieces : path.splitOn '/' = names ++ [name]
  no_slash_after : path.getLast? ≠ some '/'
  path_size : byteSize path ≤ pathLimit
  name_size : byteSize name ≤ nameLimit
  not_idle : isIdle name = false
  not_up : name ≠ ['.', '.']
  walk_eq : t.walk names = .ok l
  isDirectory : t.isDirectory l = true
  not_isDirectory : t.isDirectory (l ++ [name]) = false

theorem Admits.name_ne_nil (h : t.Admits path names name l) : name ≠ [] := by
  intro hname
  have hidle := h.not_idle
  rw [hname] at hidle
  cases hidle

theorem Admits.path_ne_nil (h : t.Admits path names name l) : path ≠ [] := by
  rintro rfl
  have hmem : name ∈ [[]] := by
    have hpieces : [[]] = names ++ [name] := h.pieces
    rw [hpieces]
    exact List.mem_concat_self
  exact h.name_ne_nil (List.mem_singleton.1 hmem)

/-- Where the same directories are, files can be put at the same places. -/
theorem Admits.congr (h : t.Admits path names name l)
    (hsame : ∀ k, t.isDirectory k = t'.isDirectory k) : t'.Admits path names name l where
  pieces := h.pieces
  no_slash_after := h.no_slash_after
  path_size := h.path_size
  name_size := h.name_size
  not_idle := h.not_idle
  not_up := h.not_up
  walk_eq := walk_of_keeps (fun k hk => hsame k ▸ hk) h.walk_eq h.isDirectory
  isDirectory := hsame l ▸ h.isDirectory
  not_isDirectory := hsame _ ▸ h.not_isDirectory

/-- Without empty names at the end, the names of a path are its last one and those before. -/
theorem dropWhile_pieces (hpieces : path.splitOn '/' = names ++ [name]) (hname : name ≠ []) :
    (path.splitOn '/').reverse.dropWhile (· = []) = name :: names.reverse := by
  rw [hpieces, List.reverse_append, List.reverse_singleton, List.singleton_append,
    List.dropWhile_cons_of_neg (by simpa using hname)]

theorem exists_admits_of_target (h : t.target path = .ok k) :
    ∃ names name l, t.Admits path names name l ∧ l ++ [name] = k := by
  -- Every test that the path has passed is one field below.
  obtain ⟨hpath, h⟩ := guard_eq_ok_iff.1 h
  obtain ⟨hsize, h⟩ := guard_eq_ok_iff.1 h
  split at h
  · cases h
  rename_i name reversed hreversed
  obtain ⟨l, hl, h⟩ := bind_eq_ok_iff.1 h
  obtain ⟨l', hwalk, hl⟩ := bind_eq_ok_iff.1 hl
  obtain ⟨hdirectory, rfl⟩ := directory_eq_ok_iff.1 hl
  obtain ⟨hproper, h⟩ := guard_eq_ok_iff.1 h
  obtain ⟨place, hplace, h⟩ := bind_eq_ok_iff.1 h
  obtain ⟨-, hname, rfl⟩ := child_eq_ok_iff.1 hplace
  obtain ⟨hend, h⟩ := guard_eq_ok_iff.1 h
  obtain ⟨hnot, h⟩ := guard_eq_ok_iff.1 h
  cases h
  obtain ⟨names, last, hpieces⟩ : ∃ names last, path.splitOn '/' = names ++ [last] :=
    ⟨_, _, (List.dropLast_concat_getLast (List.splitOn_ne_nil _ _)).symm⟩
  have hlast := ne_nil_of_splitOn hpath hend hpieces
  rw [dropWhile_pieces hpieces hlast, List.cons.injEq] at hreversed
  obtain ⟨rfl, rfl⟩ := hreversed
  rw [List.reverse_reverse] at hwalk
  refine ⟨names, last, l', ?_, rfl⟩
  exact {
    pieces := hpieces
    no_slash_after := hend
    path_size := Nat.le_of_not_lt hsize
    name_size := hname
    not_idle := by simp [isIdle, hlast, not_or.1 hproper]
    not_up := (not_or.1 hproper).2
    walk_eq := hwalk
    isDirectory := hdirectory
    not_isDirectory := Bool.eq_false_iff.2 hnot }

theorem Admits.target_eq (h : t.Admits path names name l) : t.target path = .ok (l ++ [name]) := by
  have hproper : ¬ (name = ['.'] ∨ name = ['.', '.']) := by
    intro hor
    rcases hor with rfl | hup
    · cases h.not_idle
    · exact h.not_up hup
  unfold target
  rw [if_neg h.path_ne_nil, if_neg (Nat.not_lt.2 h.path_size),
    dropWhile_pieces h.pieces h.name_ne_nil]
  refine bind_eq_ok_iff.2 ⟨l, bind_eq_ok_iff.2 ⟨l, ?_, ?_⟩, ?_⟩
  · rw [List.reverse_reverse]
    exact h.walk_eq
  · exact directory_eq_ok_iff.2 ⟨h.isDirectory, rfl⟩
  · rw [if_neg hproper]
    refine bind_eq_ok_iff.2 ⟨_, child_eq_ok_iff.2 ⟨h.isDirectory, h.name_size, rfl⟩, ?_⟩
    rw [if_neg h.no_slash_after, if_neg (Bool.eq_false_iff.1 h.not_isDirectory)]

theorem target_eq_ok_iff :
    t.target path = .ok k ↔ ∃ names name l, t.Admits path names name l ∧ l ++ [name] = k := by
  constructor
  · exact exists_admits_of_target
  · rintro ⟨names, name, l, h, rfl⟩
    exact h.target_eq

theorem target_congr (hsame : ∀ k, t.isDirectory k = t'.isDirectory k) (path : Text)
    (l : Location) : t.target path = .ok l ↔ t'.target path = .ok l := by
  rw [target_eq_ok_iff, target_eq_ok_iff]
  constructor
  · rintro ⟨names, name, l, h, rfl⟩
    exact ⟨names, name, l, h.congr hsame, rfl⟩
  · rintro ⟨names, name, l, h, rfl⟩
    exact ⟨names, name, l, h.congr fun k => (hsame k).symm, rfl⟩

/-- Once a file stands where a path lets it be put, the path leads to it. -/
theorem resolve_of_target (h : t.target path = .ok l) (hkeeps : t.Keeps t')
    (hnode : (t'.node? l).isSome = true) : t'.resolve path = .ok l := by
  obtain ⟨names, name, directory, hadmits, rfl⟩ := target_eq_ok_iff.1 h
  rw [resolve, if_neg hadmits.path_ne_nil, if_neg (Nat.not_lt.2 hadmits.path_size),
    hadmits.pieces]
  exact walk_concat (walk_of_keeps hkeeps hadmits.walk_eq hadmits.isDirectory)
    (hkeeps _ hadmits.isDirectory) hadmits.not_idle hadmits.not_up hadmits.name_size hnode

theorem isDirectory_of_target (h : t.target path = .ok l) : t.isDirectory l = false := by
  obtain ⟨names, name, directory, hadmits, rfl⟩ := target_eq_ok_iff.1 h
  exact hadmits.not_isDirectory

/-! ## Putting and taking away -/

theorem ne_nil_of_isDirectory (h : t.isDirectory l = false) : l ≠ [] := by
  rintro rfl
  cases h

theorem node?_put_of_isDirectory (h : t.isDirectory l = false) (n : FileNode) (k : Location) :
    (t.put l n).node? k = if k = l then some n else t.node? k :=
  node?_put t (ne_nil_of_isDirectory h) n k

/-- A file that is put where no directory is leaves all directories. -/
theorem isDirectory_put_file (h : t.isDirectory l = false) (content : ByteArray) (k : Location) :
    (t.put l (.file content)).isDirectory k = t.isDirectory k := by
  unfold isDirectory
  rw [node?_put_of_isDirectory h]
  by_cases hk : k = l
  · rw [if_pos hk, hk]
    exact h.symm
  · rw [if_neg hk]

theorem isDirectory_of_free (h : t.node? l = none) : t.isDirectory l = false := by
  rw [isDirectory, h]

theorem erase_put (h : t.node? l = none) (n : FileNode) : (t.put l n).erase l = t := by
  have hl : l ≠ [] := ne_nil_of_isDirectory (isDirectory_of_free h)
  have hget : t.nodes.get? l = none := by
    rw [node?, if_neg hl] at h
    exact h
  rw [put, erase, OrderedMap.erase_insert_self, OrderedMap.erase_eq_self _ hget]

/-- A file is moved from a free place to where it could have been put at once. -/
theorem move_put_eq_ok_iff (h : t.node? l = none) (content : ByteArray) :
    (t.put l (.file content)).move l path = .ok t' ↔
      ∃ k, t.target path = .ok k ∧ t' = t.put k (.file content) := by
  have hnot := isDirectory_of_free h
  have hnode : (t.put l (.file content)).node? l = some (.file content) := by
    rw [node?_put_of_isDirectory hnot, if_pos rfl]
  have htarget := fun k => target_congr (isDirectory_put_file hnot content) path k
  rw [move, bind_eq_ok_iff]
  simp only [hnode, erase_put h, htarget, Except.ok.injEq, eq_comm (a := t')]

/-! ## A free name -/

theorem node?_freshName (t : FileTree) (path : Text) (l : Location) :
    t.node? (l ++ [t.freshName path]) = none := by
  rw [node?, if_neg (by simp)]
  refine Option.eq_none_iff_forall_ne_some.2 fun n hget => ?_
  have hkey : l ++ [t.freshName path] ∈ t.nodes.keys :=
    (OrderedMap.mem_keys_iff _).2 (Option.isSome_of_eq_some hget)
  have hname : t.freshName path ∈ t.nodes.keys.flatten :=
    List.mem_flatten.2 ⟨_, hkey, List.mem_concat_self⟩
  have hlength := (List.sublist_flatten_of_mem hname).length_le
  rw [freshName, List.length_cons, List.length_replicate] at hlength
  omega

end FileTree

end Lineage
