namespace TickGraph

/-- Puts a number into an ascending list that holds none twice. -/
def insertAscending (n : Int) : List Int → List Int
  | [] => [n]
  | m :: rest =>
    if n < m then n :: m :: rest else if n = m then m :: rest else m :: insertAscending n rest

/-- The numbers of a list in ascending order, each once. -/
def ascending (ns : List Int) : List Int :=
  ns.foldr insertAscending []

theorem mem_insertAscending {n m : Int} {ns : List Int} :
    m ∈ insertAscending n ns ↔ m = n ∨ m ∈ ns := by
  induction ns with
  | nil => simp [insertAscending]
  | cons head rest ih =>
    unfold insertAscending
    split
    · simp
    · split
      · rename_i _ same
        subst same
        simp
      · simp only [List.mem_cons, ih]
        exact or_left_comm

/-- No number is lost and none is added. -/
theorem mem_ascending {m : Int} {ns : List Int} : m ∈ ascending ns ↔ m ∈ ns := by
  induction ns with
  | nil => simp [ascending]
  | cons head rest ih =>
    rw [List.mem_cons, ← ih]
    exact mem_insertAscending

theorem pairwise_insertAscending {n : Int} {ns : List Int} (sorted : ns.Pairwise (· < ·)) :
    (insertAscending n ns).Pairwise (· < ·) := by
  induction ns with
  | nil => simp [insertAscending]
  | cons head rest ih =>
    obtain ⟨below, tail⟩ := List.pairwise_cons.mp sorted
    unfold insertAscending
    split
    · rename_i less
      refine List.pairwise_cons.mpr ⟨fun m member => ?_, sorted⟩
      rcases List.mem_cons.mp member with same | later
      · omega
      · have above := below m later
        omega
    · split
      · exact sorted
      · refine List.pairwise_cons.mpr ⟨fun m member => ?_, ih tail⟩
        rcases mem_insertAscending.mp member with same | later
        · omega
        · exact below m later

/-- Each number stands once, in its place. -/
theorem pairwise_ascending (ns : List Int) : (ascending ns).Pairwise (· < ·) := by
  induction ns with
  | nil => exact List.Pairwise.nil
  | cons head rest ih => exact pairwise_insertAscending ih

end TickGraph
