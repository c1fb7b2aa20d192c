/-!
# Orders of keys

A strict linear order with a test for it. Characters are ordered by their code points, and lists by
their first difference, so texts are ordered as their UTF-8 bytes are.
-/

namespace Lineage

/-- A strict linear order of keys, with a test for it. -/
class KeyOrder (κ : Type) [LT κ] where
  /-- Whether the first key comes before the second. -/
  before : κ → κ → Bool
  before_iff {a b : κ} : before a b = true ↔ a < b
  irrefl (a : κ) : ¬ a < a
  trans {a b c : κ} : a < b → b < c → a < c
  eq_of_not_lt {a b : κ} : ¬ a < b → ¬ b < a → a = b

namespace KeyOrder

instance {κ : Type} [LT κ] [KeyOrder κ] : DecidableLT κ := fun _ _ =>
  decidable_of_iff _ before_iff

/-- Characters are ordered by their code points. -/
instance : KeyOrder Char where
  before a b := a.val < b.val
  before_iff := decide_eq_true_iff
  irrefl := Char.lt_irrefl
  trans := Char.lt_trans
  eq_of_not_lt h₁ h₂ := Char.le_antisymm (Char.not_lt.1 h₂) (Char.not_lt.1 h₁)

/-- Whether the first list comes before the second: its key at the first difference does, or it
ends there. -/
def listBefore {κ : Type} [LT κ] [KeyOrder κ] : List κ → List κ → Bool
  | _, [] => false
  | [], _ :: _ => true
  | a :: as, b :: bs => before a b || (!before b a && listBefore as bs)

theorem listBefore_iff {κ : Type} [LT κ] [KeyOrder κ] {as bs : List κ} :
    listBefore as bs = true ↔ as < bs := by
  fun_induction listBefore as bs with
  | case1 as => simp
  | case2 b bs => simp
  | case3 a as b bs ih =>
    rw [List.cons_lt_cons_iff, Bool.or_eq_true, Bool.and_eq_true, before_iff, ih,
      Bool.not_eq_true', ← Bool.not_eq_true, before_iff]
    by_cases hab : a < b
    · simp [hab]
    · have : ¬ b < a ↔ a = b :=
        ⟨fun hba => eq_of_not_lt hab hba, fun h => h ▸ irrefl a⟩
      rw [this]

/-- Lists are ordered by their first difference. -/
instance {κ : Type} [LT κ] [KeyOrder κ] : KeyOrder (List κ) :=
  have : Std.Irrefl (α := κ) (· < ·) := ⟨irrefl⟩
  have : Trans (α := κ) (· < ·) (· < ·) (· < ·) := ⟨trans⟩
  have : Std.Trichotomous (α := κ) (· < ·) := ⟨fun _ _ => eq_of_not_lt⟩
  { before := listBefore
    before_iff := listBefore_iff
    irrefl := List.lt_irrefl
    trans := List.lt_trans
    eq_of_not_lt := fun h₁ h₂ => List.le_antisymm (List.not_lt.1 h₂) (List.not_lt.1 h₁) }

end KeyOrder

end Lineage
