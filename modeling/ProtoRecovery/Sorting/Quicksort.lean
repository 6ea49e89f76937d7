/-! # Quicksort that defeats patterns

A stretch of an array is sorted in place. Short stretches are sorted by insertion; longer ones are
parted around a median, except that a stretch which looks sorted is tried by insertion, one with
many equal elements is parted from them, and one that has been parted badly too often is sorted by
a heap. Equal elements may change places, but always in the same way. -/
namespace ProtoRecovery.Quicksort
variable {α : Type} (less : α → α → Bool)

def before (xs : Array α) (i j : Nat) : Bool :=
  match xs[i]?, xs[j]? with
  | some x, some y => less x y
  | _, _ => false

def lower (low : Nat) : (i : Nat) → Array α → Array α
  | 0, xs => xs
  | i + 1, xs =>
    if low ≤ i && before less xs (i + 1) i then lower low i (xs.swapIfInBounds (i + 1) i) else xs

/-- Moves the element before `i` up past at most `room` smaller ones. -/
def raise : (room i : Nat) → Array α → Array α
  | 0, _, xs => xs
  | room + 1, i, xs =>
    if before less xs i (i - 1) then raise room (i + 1) (xs.swapIfInBounds i (i - 1)) else xs

def insertion (a b : Nat) (xs : Array α) : Array α :=
  (List.range' (a + 1) (b - (a + 1))).foldl (fun xs i => lower less a i xs) xs

def largerChild (first size root : Nat) (xs : Array α) : Nat :=
  let left := 2 * root + 1
  if left + 1 < size && before less xs (first + left) (first + left + 1) then left + 1 else left

def sift (first size : Nat) : (room root : Nat) → Array α → Array α
  | 0, _, xs => xs
  | room + 1, root, xs =>
    let child := largerChild less first size root xs
    if child < size && before less xs (first + root) (first + child) then
      sift first size room child (xs.swapIfInBounds (first + root) (first + child))
    else xs

def heap (a b : Nat) (xs : Array α) : Array α :=
  let size := b - a
  let xs := (List.range ((size - 1) / 2 + 1)).reverse.foldl (fun xs i => sift less a size size i xs) xs
  (List.range size).reverse.foldl (fun xs i => sift less a i i 0 (xs.swapIfInBounds a (a + i))) xs

def scramble (r : UInt64) : UInt64 :=
  let r := r ^^^ (r <<< 13)
  let r := r ^^^ (r >>> 7)
  r ^^^ (r <<< 17)

/-- Swaps three elements around the middle of a stretch with others of it, as a sequence that only
depends on the length says. -/
def scatter (a b : Nat) (xs : Array α) : Array α :=
  let length := b - a
  let middle := a + length / 4 * 2
  let place := fun (r : UInt64) =>
    let n := r.toNat % (2 <<< length.log2)
    if length ≤ n then n - length else n
  let first := scramble length.toUInt64
  let second := scramble first
  let third := scramble second
  ((xs.swapIfInBounds (middle - 1) (a + place first)).swapIfInBounds middle (a + place second)).swapIfInBounds
    (middle + 1) (a + place third)

def orderTwo (xs : Array α) (i j exchanges : Nat) : Nat × Nat × Nat :=
  if before less xs j i then (j, i, exchanges + 1) else (i, j, exchanges)

def median (xs : Array α) (i j k exchanges : Nat) : Nat × Nat :=
  let (i, j, exchanges) := orderTwo less xs i j exchanges
  let (j, _, exchanges) := orderTwo less xs j k exchanges
  let (_, j, exchanges) := orderTwo less xs i j exchanges
  (j, exchanges)

inductive Trend | rising | falling | mixed deriving DecidableEq, Repr

def maxExchanges : Nat := 12

def shortLength : Nat := 12

/-- From this length on a pivot is a median of medians, and misplaced elements are moved. -/
def longLength : Nat := 50

def choosePivot (a b : Nat) (xs : Array α) : Nat × Trend :=
  let quarter := (b - a) / 4
  let (i, j, k) := (a + quarter, a + quarter * 2, a + quarter * 3)
  let (pivot, exchanges) :=
    if longLength ≤ b - a then
      let (i, n) := median less xs (i - 1) i (i + 1) 0
      let (j, n) := median less xs (j - 1) j (j + 1) n
      let (k, n) := median less xs (k - 1) k (k + 1) n
      median less xs i j k n
    else median less xs i j k 0
  (pivot, if exchanges = 0 then .rising else if exchanges = maxExchanges then .falling else .mixed)

def turn (a b : Nat) (xs : Array α) : Array α :=
  (List.range ((b - a) / 2)).foldl (fun xs n => xs.swapIfInBounds (a + n) (b - 1 - n)) xs

def skipUp (test : Nat → Bool) : (room i : Nat) → Nat
  | 0, i => i
  | room + 1, i => if test i then skipUp test room (i + 1) else i

def skipDown (test : Nat → Bool) : (room i : Nat) → Nat
  | 0, i => i
  | room + 1, i => if test i then skipDown test room (i - 1) else i

def exchange (a b i : Nat) (xs : Array α) : Array α :=
  let xs := xs.swapIfInBounds i (i - 1)
  let xs := if 2 ≤ i - a then lower less 0 (i - 1) xs else xs
  if 2 ≤ b - i then raise less (b - (i + 1)) (i + 1) xs else xs

/-- Puts a few misplaced elements where they belong; says whether the stretch from `i` to before
`b` is sorted after that. -/
def mend (a b : Nat) : (steps i : Nat) → Array α → Array α × Bool
  | 0, _, xs => (xs, false)
  | steps + 1, i, xs =>
    let i := skipUp (fun i => !before less xs i (i - 1)) (b - i) i
    if b ≤ i then (xs, true)
    else if b - a < longLength then (xs, false)
    else mend a b steps i (exchange less a b i xs)

/-- Brings the elements from `i` to `j` that pass the test to the front. Gives the position after
them, and whether elements had to be swapped for it. -/
def part (test : α → Bool) : (room i j : Nat) → Array α → Array α × Nat × Bool
  | 0, i, _, xs => (xs, i, false)
  | room + 1, i, j, xs =>
    let passes := fun n => (xs[n]?).any test
    let i := skipUp passes (j + 1 - i) i
    let j := skipDown (fun n => !passes n) (j + 1 - i) j
    if j < i then (xs, i, false)
    else
      let (xs, middle, _) := part test room (i + 1) (j - 1) (xs.swapIfInBounds i j)
      (xs, middle, true)

/-- Parts a stretch around a pivot: what comes before it stands before it. Gives where the pivot
stands, and whether the stretch was parted already. -/
def partAround (a b pivot : Nat) (xs : Array α) : Array α × Nat × Bool :=
  let xs := xs.swapIfInBounds a pivot
  let center := xs[a]?
  let (xs, middle, swapped) := part (fun x => center.any (less x)) (b - a) (a + 1) (b - 1) xs
  (xs.swapIfInBounds (middle - 1) a, middle - 1, !swapped)

def partEqual (a b pivot : Nat) (xs : Array α) : Array α × Nat :=
  let xs := xs.swapIfInBounds a pivot
  let center := xs[a]?
  let (xs, middle, _) := part (fun x => !center.any fun p => less p x) (b - a) (a + 1) (b - 1) xs
  (xs, middle)

/-- The last step on a stretch: how often it may still be parted badly, whether the step before
parted it evenly, and whether it had to swap nothing. -/
structure Past where
  patience : Nat
  even : Bool := true
  parted : Bool := true
  deriving DecidableEq, Repr

/-- Breaks up a stretch that was parted badly, or turns it if it seems to fall. -/
def arrange (past : Past) (a b : Nat) (xs : Array α) : Array α × Nat × Trend :=
  let xs := if past.even then xs else scatter a b xs
  let (pivot, trend) := choosePivot less a b xs
  if trend = .falling then (turn a b xs, (b - 1) - (pivot - a), .rising) else (xs, pivot, trend)

def mendRising (past : Past) (trend : Trend) (a b : Nat) (xs : Array α) : Array α × Bool :=
  if past.even && past.parted && trend = .rising then mend less a b 5 (a + 1) xs else (xs, false)

/-- Sorts a stretch; `fuel` is at least its length. -/
def sortStretch : (fuel : Nat) → Past → (a b : Nat) → Array α → Array α
  | 0, _, _, _, xs => xs
  | fuel + 1, past, a, b, xs =>
    if b - a ≤ shortLength then insertion less a b xs
    else if past.patience = 0 then heap less a b xs
    else
      let patience := if past.even then past.patience else past.patience - 1
      let (xs, pivot, trend) := arrange less past a b xs
      let (xs, sorted) := mendRising less past trend a b xs
      if sorted then xs
      else if 0 < a && !before less xs (a - 1) pivot then
        let (xs, middle) := partEqual less a b pivot xs
        sortStretch fuel { past with patience } middle b xs
      else
        let (xs, middle, parted) := partAround less a b pivot xs
        if middle - a < b - middle then
          let xs := sortStretch fuel { patience } a middle xs
          sortStretch fuel { patience, parted, even := (b - a) / 8 ≤ middle - a } (middle + 1) b xs
        else
          let xs := sortStretch fuel { patience } (middle + 1) b xs
          sortStretch fuel { patience, parted, even := (b - a) / 8 ≤ b - middle } a middle xs

def sort (xs : Array α) : Array α :=
  sortStretch less xs.size { patience := if xs.isEmpty then 0 else xs.size.log2 + 1 } 0 xs.size xs

end ProtoRecovery.Quicksort
