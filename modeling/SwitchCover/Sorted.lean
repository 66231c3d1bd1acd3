namespace SwitchCover.Sorted

variable {α : Type u} [DecidableEq α] [LT α] [DecidableLT α]

def insert (a : α) : List α → List α
  | [] => [a]
  | b :: bs => if a = b then b :: bs else if a < b then a :: b :: bs else b :: insert a bs

/-- The elements of a list in ascending order, each once. -/
def ofList (as : List α) : List α :=
  as.foldr insert []

/-- Membership in a sorted list by bisection: the element in the middle tells in which half the
search goes on. -/
def contains (a : α) (as : List α) : Bool :=
  match h : as.drop (as.length / 2) with
  | [] => false
  | b :: upper =>
    if a = b then true
    else if a < b then contains a (as.take (as.length / 2))
    else contains a upper
termination_by as.length
decreasing_by
  all_goals
    have hlen := congrArg List.length h
    rw [List.length_drop, List.length_cons] at hlen
  · rw [List.length_take]
    omega
  · omega

theorem mem_insert {a b : α} {bs : List α} : b ∈ insert a bs ↔ b = a ∨ b ∈ bs := by
  induction bs with
  | nil => simp [insert]
  | cons c cs ih =>
    by_cases h : a = c
    · subst h
      simp [insert]
    · by_cases hlt : a < c
      · simp [insert, h, hlt]
      · simp only [insert, h, hlt, if_false, List.mem_cons, ih]
        constructor
        · rintro (rfl | rfl | h') <;> simp_all
        · rintro (rfl | rfl | h') <;> simp_all

theorem mem_ofList {a : α} {as : List α} : a ∈ ofList as ↔ a ∈ as := by
  induction as with
  | nil => simp [ofList]
  | cons b bs ih =>
    have h : ofList (b :: bs) = insert b (ofList bs) := rfl
    rw [h, mem_insert, ih, List.mem_cons]

end SwitchCover.Sorted
