/-!
# Lists without repeats

`distinct` keeps the first of equal elements, in order.
-/

namespace RecordGuard

variable {α : Type} [DecidableEq α]

/-- The elements of a list, each at its first place. -/
def distinct : List α → List α
  | [] => []
  | a :: as => a :: (distinct as).filter (· ≠ a)

@[simp] theorem mem_distinct {a : α} {as : List α} : a ∈ distinct as ↔ a ∈ as := by
  induction as with
  | nil => rfl
  | cons b bs ih =>
    by_cases h : a = b
    · simp [distinct, h]
    · simp [distinct, h, ih]

theorem nodup_distinct (as : List α) : (distinct as).Nodup := by
  induction as with
  | nil => exact List.nodup_nil
  | cons b bs ih => exact List.nodup_cons.2 ⟨by simp, ih.filter _⟩

theorem distinct_eq_nil_iff {as : List α} : distinct as = [] ↔ as = [] := by
  cases as <;> simp [distinct]

end RecordGuard
