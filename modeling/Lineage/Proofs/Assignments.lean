import Lineage.Proofs.WriteVisibility
import Mathlib.Data.List.Nodup

/-!
# Assignments in any order

Assignments that are accepted and have different targets may be made in any order
(`Document.assignAll_perm`). A target is a section and a key by their names, so assignments with
different spellings may have one target. Those that are refused change nothing wherever they stand.

Two assignments to one section may both find it missing. Whichever comes first creates it, and it
makes no difference which one does, since a section is created without values and with nothing
declared (`Document.assign_comm`).
-/

namespace Lineage

open Text

/-! ## Two values of one section -/

namespace Section

theorem set_comm (s : Section) {j k : Text} (h : j.toName ≠ k.toName) (v w : Text) :
    (s.set j v).set k w = (s.set k w).set j v := by
  show { s with values := (s.values.insert _ v).insert _ w } = { s with values := _ }
  rw [OrderedMap.insert_comm s.values h]
  rfl

theorem afterWrite_comm (old : Option Section) {j k : Text} (h : j.toName ≠ k.toName)
    (v w : Text) :
    afterWrite (some (afterWrite old j v)) k w = afterWrite (some (afterWrite old k w)) j v := by
  apply set_comm
  rwa [toName_toName, toName_toName]

end Section

/-- A value that is to be stored under a key of a section. -/
structure Assignment where
  name : Text
  key : Text
  value : Text

namespace Assignment

/-- Neither the section nor the key is empty as a name. -/
def Accepted (a : Assignment) : Prop := a.name.toName ≠ [] ∧ a.key.toName ≠ []

instance : DecidablePred Accepted := fun _ => inferInstanceAs (Decidable (_ ∧ _))

/-- The names that the section and the key stand for. -/
def target (a : Assignment) : Text × Text := (a.name.toName, a.key.toName)

end Assignment

namespace Document

/-- Makes an assignment. One that is refused leaves the document as it is. -/
def assign (d : Document) (a : Assignment) : Document :=
  (d.write? a.name a.key a.value).getD d

/-- Makes assignments one after another. -/
def assignAll (d : Document) (as : List Assignment) : Document := as.foldl assign d

variable {d : Document} {a b : Assignment}

/-! ## One assignment -/

theorem write?_eq_none_iff_not_accepted :
    d.write? a.name a.key a.value = none ↔ ¬ a.Accepted := by
  rw [write?_eq_none_iff, Assignment.Accepted, not_and_or, not_not, not_not]

theorem assign_of_not_accepted (d : Document) (h : ¬ a.Accepted) : d.assign a = d := by
  rw [assign, write?_eq_none_iff_not_accepted.2 h, Option.getD_none]

theorem sections_assign (d : Document) (h : a.Accepted) :
    (d.assign a).sections =
      d.sections.insert a.name.toName
        (Section.afterWrite (d.sections.get? a.name.toName) a.key a.value) := by
  have hne : ¬ (a.name.toName = [] ∨ a.key.toName = []) := not_or.2 h
  rw [assign, write?, if_neg hne]
  rfl

/-! ## Two assignments -/

theorem sections_assign_comm (d : Document) (ha : a.Accepted) (hb : b.Accepted)
    (h : a.target ≠ b.target) :
    ((d.assign a).assign b).sections = ((d.assign b).assign a).sections := by
  rw [sections_assign _ hb, sections_assign _ ha, sections_assign _ ha, sections_assign _ hb]
  by_cases hname : a.name.toName = b.name.toName
  · -- Both go to one section. Each finds what the other left there, or creates it.
    have hkey : a.key.toName ≠ b.key.toName := by
      intro hkey
      exact h (Prod.ext hname hkey)
    rw [hname, OrderedMap.get?_insert_self, OrderedMap.get?_insert_self,
      OrderedMap.insert_insert, OrderedMap.insert_insert, Section.afterWrite_comm _ hkey]
  · rw [OrderedMap.get?_insert_of_ne _ (Ne.symm hname), OrderedMap.get?_insert_of_ne _ hname,
      OrderedMap.insert_comm _ hname]

theorem assign_comm (d : Document) (h : a.Accepted → b.Accepted → a.target ≠ b.target) :
    (d.assign a).assign b = (d.assign b).assign a := by
  by_cases ha : a.Accepted
  · by_cases hb : b.Accepted
    · exact congrArg Document.mk (sections_assign_comm d ha hb (h ha hb))
    · rw [assign_of_not_accepted _ hb, assign_of_not_accepted _ hb]
  · rw [assign_of_not_accepted _ ha, assign_of_not_accepted _ ha]

/-! ## All orders -/

/-- Assignments make the same document in any order, if the accepted ones have different targets. -/
theorem assignAll_perm (d : Document) {as bs : List Assignment} (hperm : as.Perm bs)
    (htargets : ((as.filter (fun a => a.Accepted)).map Assignment.target).Nodup) :
    d.assignAll as = d.assignAll bs := by
  refine hperm.foldl_eq' ?_ d
  intro a ha b hb d
  by_cases hab : a = b
  · rw [hab]
  · apply assign_comm
    intro haccepted hbaccepted htarget
    have ha' : a ∈ as.filter (fun a => a.Accepted) :=
      List.mem_filter.2 ⟨ha, decide_eq_true haccepted⟩
    have hb' : b ∈ as.filter (fun a => a.Accepted) :=
      List.mem_filter.2 ⟨hb, decide_eq_true hbaccepted⟩
    exact hab (List.inj_on_of_nodup_map htargets ha' hb' htarget)

/-- Either of two assignments may create `a`, from which `b` inherits. Two are refused for a blank
name. -/
theorem assignAll_perm_reverse :
    let d := parse "[b:a]\nk=0\n".toList
    let as : List Assignment :=
      [⟨"A".toList, "k".toList, "1".toList⟩, ⟨"".toList, "k".toList, "2".toList⟩,
        ⟨" a".toList, "J ".toList, "3".toList⟩, ⟨"B".toList, "K".toList, "4".toList⟩,
        ⟨"a".toList, " ".toList, "5".toList⟩]
    as.Perm as.reverse ∧
      ((as.filter (fun a => a.Accepted)).map Assignment.target).Nodup ∧
      d.assignAll as = d.assignAll as.reverse := by
  intro d as
  have hperm : as.Perm as.reverse := (List.reverse_perm as).symm
  have htargets : ((as.filter (fun a => a.Accepted)).map Assignment.target).Nodup := by
    decide +kernel
  exact ⟨hperm, htargets, assignAll_perm d hperm htargets⟩

end Document

end Lineage
