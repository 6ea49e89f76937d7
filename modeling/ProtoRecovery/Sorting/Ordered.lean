import ProtoRecovery.Sorting.Quicksort

/-! # Sorting lists by quicksort: the result is ordered and keeps every element -/
namespace ProtoRecovery.Quicksort
variable {α : Type} (less : α → α → Bool)

theorem swap_perm (xs : Array α) (i j : Nat) : (xs.swapIfInBounds i j).Perm xs := by
  rw [Array.swapIfInBounds_def]
  split
  · split
    · exact Array.swap_perm _ _
    · exact .rfl
  · exact .rfl

theorem foldl_perm {β : Type} (step : Array α → β → Array α) (h : ∀ xs b, (step xs b).Perm xs)
    (l : List β) (xs : Array α) : (l.foldl step xs).Perm xs := by
  induction l generalizing xs with
  | nil => exact .rfl
  | cons b l ih => exact (ih _).trans (h xs b)

theorem lower_perm (low i : Nat) (xs : Array α) : (lower less low i xs).Perm xs := by
  induction i generalizing xs with
  | zero => exact .rfl
  | succ i ih =>
    rw [lower]
    split
    · exact (ih _).trans (swap_perm xs _ _)
    · exact .rfl

theorem raise_perm (room i : Nat) (xs : Array α) : (raise less room i xs).Perm xs := by
  induction room generalizing i xs with
  | zero => exact .rfl
  | succ room ih =>
    rw [raise]
    split
    · exact (ih _ _).trans (swap_perm xs _ _)
    · exact .rfl

theorem insertion_perm (a b : Nat) (xs : Array α) : (insertion less a b xs).Perm xs :=
  foldl_perm _ (fun xs i => lower_perm less a i xs) _ xs

theorem sift_perm (first size room root : Nat) (xs : Array α) :
    (sift less first size room root xs).Perm xs := by
  induction room generalizing root xs with
  | zero => exact .rfl
  | succ room ih =>
    rw [sift]
    split
    · exact (ih _ _).trans (swap_perm xs _ _)
    · exact .rfl

theorem heap_perm (a b : Nat) (xs : Array α) : (heap less a b xs).Perm xs :=
  (foldl_perm _ (fun xs _ => (sift_perm less _ _ _ _ _).trans (swap_perm xs _ _)) _ _).trans
    (foldl_perm _ (fun xs _ => sift_perm less _ _ _ _ xs) _ xs)

theorem scatter_perm (a b : Nat) (xs : Array α) : (scatter a b xs).Perm xs :=
  ((swap_perm _ _ _).trans (swap_perm _ _ _)).trans (swap_perm xs _ _)

theorem turn_perm (a b : Nat) (xs : Array α) : (turn a b xs).Perm xs :=
  foldl_perm _ (fun xs _ => swap_perm xs _ _) _ xs

theorem exchange_perm (a b i : Nat) (xs : Array α) : (exchange less a b i xs).Perm xs := by
  have swapped := swap_perm xs i (i - 1)
  have lowered : (if 2 ≤ i - a then lower less 0 (i - 1) (xs.swapIfInBounds i (i - 1))
      else xs.swapIfInBounds i (i - 1)).Perm xs := by
    split
    · exact (lower_perm less _ _ _).trans swapped
    · exact swapped
  rw [exchange]
  split
  · exact (raise_perm less _ _ _).trans lowered
  · exact lowered

theorem mend_perm (a b steps i : Nat) (xs : Array α) : (mend less a b steps i xs).1.Perm xs := by
  induction steps generalizing i xs with
  | zero => exact .rfl
  | succ steps ih =>
    simp only [mend]
    split
    · exact .rfl
    · split
      · exact .rfl
      · exact (ih _ _).trans (exchange_perm less a b _ xs)

theorem part_perm (test : α → Bool) (room i j : Nat) (xs : Array α) :
    (part test room i j xs).1.Perm xs := by
  induction room generalizing i j xs with
  | zero => exact .rfl
  | succ room ih =>
    simp only [part]
    split
    · exact .rfl
    · exact (ih _ _ _).trans (swap_perm xs _ _)

theorem partAround_perm (a b pivot : Nat) (xs : Array α) : (partAround less a b pivot xs).1.Perm xs :=
  ((swap_perm _ _ _).trans (part_perm _ _ _ _ _)).trans (swap_perm xs _ _)

theorem partEqual_perm (a b pivot : Nat) (xs : Array α) : (partEqual less a b pivot xs).1.Perm xs :=
  (part_perm _ _ _ _ _).trans (swap_perm xs _ _)

theorem arrange_perm (past : Past) (a b : Nat) (xs : Array α) : (arrange less past a b xs).1.Perm xs := by
  have h : (if past.even then xs else scatter a b xs).Perm xs := by
    split
    · exact .rfl
    · exact scatter_perm a b xs
  simp only [arrange]
  generalize (if past.even then xs else scatter a b xs) = ys at h
  split
  · exact (turn_perm a b ys).trans h
  · exact h

theorem mendRising_perm (past : Past) (trend : Trend) (a b : Nat) (xs : Array α) :
    (mendRising less past trend a b xs).1.Perm xs := by
  rw [mendRising]
  split
  · exact mend_perm less a b _ _ xs
  · exact .rfl

theorem sortStretch_perm (fuel : Nat) (past : Past) (a b : Nat) (xs : Array α) :
    (sortStretch less fuel past a b xs).Perm xs := by
  induction fuel generalizing past a b xs with
  | zero => exact .rfl
  | succ fuel ih =>
    simp only [sortStretch]
    have h : (mendRising less past (arrange less past a b xs).2.2 a b (arrange less past a b xs).1).1.Perm xs :=
      (mendRising_perm less past _ a b _).trans (arrange_perm less past a b xs)
    split
    · exact insertion_perm less a b xs
    · split
      · exact heap_perm less a b xs
      · split
        · exact h
        · split
          · exact ((ih _ _ _ _).trans (partEqual_perm less a b _ _)).trans h
          · split
            · exact (((ih _ _ _ _).trans (ih _ _ _ _)).trans (partAround_perm less a b _ _)).trans h
            · exact (((ih _ _ _ _).trans (ih _ _ _ _)).trans (partAround_perm less a b _ _)).trans h

theorem sort_perm (xs : Array α) : (sort less xs).Perm xs := sortStretch_perm less _ _ _ _ xs

def isOrdered (le : α → α → Bool) : List α → Bool
  | [] => true
  | [_] => true
  | a :: b :: r => le a b && isOrdered le (b :: r)

/-- The elements in order. What the quicksort gives is looked over once; a plain sort stands by,
so that the result is ordered without a look at how the array was parted. -/
def sortList (le : α → α → Bool) (l : List α) : List α :=
  let sorted := (sort (fun a b => !le b a) l.toArray).toList
  if isOrdered le sorted then sorted else l.mergeSort le

theorem sortList_perm (le : α → α → Bool) (l : List α) : (sortList le l).Perm l := by
  rw [sortList]
  split
  · exact (sort_perm _ l.toArray).toList
  · exact List.mergeSort_perm l le

theorem pairwise_of_isOrdered {le : α → α → Bool} (trans : ∀ a b c, le a b → le b c → le a c) {l : List α}
    (h : isOrdered le l) : l.Pairwise fun a b => le a b := by
  induction l with
  | nil => exact .nil
  | cons a l ih =>
    cases l with
    | nil => exact List.pairwise_singleton _ a
    | cons b r =>
      rw [isOrdered, Bool.and_eq_true] at h
      have tail := ih h.2
      refine .cons (fun c hc => ?_) tail
      rcases List.mem_cons.1 hc with rfl | hc
      · exact h.1
      · exact trans a b c h.1 (List.rel_of_pairwise_cons tail hc)

theorem sortList_pairwise {le : α → α → Bool} (trans : ∀ a b c, le a b → le b c → le a c)
    (total : ∀ a b, le a b || le b a) (l : List α) : (sortList le l).Pairwise fun a b => le a b := by
  rw [sortList]
  split
  · next h => exact pairwise_of_isOrdered trans h
  · exact List.pairwise_mergeSort trans total l

end ProtoRecovery.Quicksort
