import Microserver.Ranking

/-!
Pages of a list that is sorted anew for each of them. Elements with equal keys may
come in another order every time; the pages make up the list all the same unless
elements with equal keys stand on both sides of the end of a page.
-/
namespace Microserver.TiedPages
open List Microserver.Ranking
variable {α β : Type} [LinearOrder β] {key : α → β} {l sorted sorted' : List α} {x y : α} {m i size : Nat}

/-- An order in which the elements can come. -/
structure Arranged (key : α → β) (l sorted : List α) : Prop where
  perm : sorted.Perm l
  ordered : sorted.Pairwise fun a b => key a ≤ key b

theorem arranged_sortBy {visited : List α} (visit : visited.Perm l) : Arranged key l (sortBy key visited) :=
  ⟨(sortBy_perm key visited).trans visit, sortBy_pairwise key visited⟩

/-- Elements with one key stand on both sides of position `m`. -/
def Straddles (key : α → β) (l : List α) (m : Nat) : Prop :=
  ∃ x ∈ l, l.countP (key · < key x) < m ∧ m < l.countP (key · ≤ key x)

instance : Decidable (Straddles key l m) := inferInstanceAs (Decidable (∃ x ∈ l, _ ∧ _))

/-- Another arrangement of the first elements goes on with the others. -/
theorem Arranged.continued {front : List α} (arranged : Arranged key (l.take m) front)
    (ordered : l.Pairwise fun a b => key a ≤ key b) :
    Arranged key l (front ++ l.drop m) ∧ (front ++ l.drop m).take m = front := by
  have split := take_append_drop m l
  rw [← split] at ordered
  obtain ⟨-, rest, across⟩ := pairwise_append.mp ordered
  refine ⟨⟨?_, pairwise_append.mpr ⟨arranged.ordered, rest, fun a here b there => ?_⟩⟩, ?_⟩
  · exact (arranged.perm.append_right _).trans (by rw [split])
  · exact across a (arranged.perm.subset here) b there
  · have length := arranged.perm.length_eq
    rw [length_take] at length
    rcases Nat.le_total m l.length with whole | short
    · rw [take_append_of_le_length (by omega), take_of_length_le (by omega)]
    · rw [drop_of_length_le short, append_nil, take_of_length_le (by omega)]

/-- Without ties there is one arrangement. -/
theorem Arranged.unique (arranged : Arranged key l sorted) (arranged' : Arranged key l sorted')
    (distinct : (l.map key).Nodup) : sorted = sorted' := by
  refine List.Perm.eq_of_pairwise (fun a b left right le le' => ?_) arranged.ordered arranged'.ordered
    (arranged.perm.trans arranged'.perm.symm)
  exact inj_on_of_nodup_map distinct (arranged.perm.subset left) (arranged'.perm.subset right) (le_antisymm le le')

/-! ### Prefixes -/

/-- The elements of a property that only comes first are as many as they are. -/
theorem filter_eq_take {p : α → Bool} (first : sorted.Pairwise fun a b => p b = true → p a = true) :
    sorted.filter p = sorted.take (sorted.countP p) := by
  induction sorted with
  | nil => rfl
  | cons a rest ih =>
    obtain ⟨before, later⟩ := pairwise_cons.mp first
    by_cases here : p a = true
    · rw [filter_cons_of_pos here, countP_cons_of_pos here, take_succ_cons, ih later]
    · have none : ∀ b ∈ rest, ¬ p b = true := fun b member there => here (before b member there)
      rw [filter_cons_of_neg here, countP_cons_of_neg here, filter_eq_nil_iff.mpr none, countP_eq_zero.mpr none, take_zero]

/-- An element has the property exactly when it stands before that number. -/
theorem getElem_iff {p : α → Bool} (first : sorted.Pairwise fun a b => p b = true → p a = true) (within : i < sorted.length) :
    p sorted[i] = true ↔ i < sorted.countP p := by
  induction sorted generalizing i with
  | nil => cases within
  | cons a rest ih =>
    obtain ⟨before, later⟩ := pairwise_cons.mp first
    by_cases here : p a = true
    · rw [countP_cons_of_pos here]
      cases i with
      | zero => simp [here]
      | succ i =>
        rw [getElem_cons_succ, ih later]
        omega
    · have none : ∀ b ∈ rest, ¬ p b = true := fun b member there => here (before b member there)
      rw [countP_cons_of_neg here, countP_eq_zero.mpr none]
      cases i with
      | zero => simp [here]
      | succ i => simpa using none _ (getElem_mem _)

theorem Arranged.lt_first (arranged : Arranged key l sorted) (b : β) :
    sorted.Pairwise fun u v => decide (key v < b) = true → decide (key u < b) = true := by
  refine arranged.ordered.imp fun le => ?_
  simpa using fun lt => lt_of_le_of_lt le lt

theorem Arranged.le_first (arranged : Arranged key l sorted) (b : β) :
    sorted.Pairwise fun u v => decide (key v ≤ b) = true → decide (key u ≤ b) = true := by
  refine arranged.ordered.imp fun le => ?_
  simpa using fun le' => le.trans le'

/-- The elements with a smaller key come before a position, those with a key that is
    no larger extend beyond it. -/
theorem Arranged.key_eq_iff (arranged : Arranged key l sorted) (within : i < sorted.length) (b : β) :
    key sorted[i] = b ↔ l.countP (key · < b) ≤ i ∧ i < l.countP (key · ≤ b) := by
  have lt := getElem_iff (arranged.lt_first b) within
  have le := getElem_iff (arranged.le_first b) within
  rw [arranged.perm.countP_eq, decide_eq_true_eq] at lt le
  rw [← le, ← not_lt, ← lt, not_lt, le_antisymm_iff, and_comm]

/-- Up to a position without a tie, every order has the same elements. -/
theorem Arranged.take_perm (arranged : Arranged key l sorted) (arranged' : Arranged key l sorted')
    (apart : ¬ Straddles key l m) : (sorted.take m).Perm (sorted'.take m) := by
  by_cases within : m < sorted.length
  · have member : sorted[m] ∈ l := arranged.perm.mem_iff.mp (getElem_mem within)
    obtain ⟨before, beyond⟩ := (arranged.key_eq_iff within _).mp rfl
    have count : l.countP (key · < key sorted[m]) = m := by
      by_contra other
      exact apart ⟨sorted[m], member, by omega, beyond⟩
    have smaller {other : List α} (order : Arranged key l other) : other.take m = other.filter (key · < key sorted[m]) := by
      rw [filter_eq_take (order.lt_first _), order.perm.countP_eq, count]
    rw [smaller arranged, smaller arranged']
    exact (arranged.perm.trans arranged'.perm.symm).filter _
  · have whole : l.length ≤ m := by
      rw [← arranged.perm.length_eq]
      omega
    rw [take_of_length_le (arranged.perm.length_eq.trans_le whole), take_of_length_le (arranged'.perm.length_eq.trans_le whole)]
    exact arranged.perm.trans arranged'.perm.symm

/-- Different keys are no ties. -/
theorem not_straddles (distinct : (l.map key).Nodup) (m : Nat) : ¬ Straddles key l m := by
  rintro ⟨x, member, before, beyond⟩
  have arranged : Arranged key l (sortBy key l) := arranged_sortBy (.refl l)
  have ascending := sortBy_ascending distinct
  have within : m < (sortBy key l).length := by
    rw [arranged.perm.length_eq]
    exact beyond.trans_le countP_le_length
  have here := (arranged.key_eq_iff within (key x)).mpr ⟨before.le, beyond⟩
  have previous := (arranged.key_eq_iff (i := m - 1) (by omega) (key x)).mpr ⟨by omega, by omega⟩
  have lt := pairwise_iff_getElem.mp ascending (m - 1) m (by simp; omega) (by simpa using within) (by omega)
  rw [getElem_map, getElem_map, here, previous] at lt
  exact lt_irrefl _ lt

/-! ### Pages -/

/-- The pages before the one of this number, each of its own order. -/
def pages (orders : Nat → List α) (size : Nat) (number : Nat) : List α :=
  (range number).flatMap fun k => ((orders k).drop (k * size)).take size

theorem pages_succ (orders : Nat → List α) (size number : Nat) :
    pages orders size (number + 1) = pages orders size number ++ ((orders number).drop (number * size)).take size := by
  simp [pages, range_succ]

variable {orders : Nat → List α}

theorem pages_perm_take (arranged : ∀ k, Arranged key l (orders k)) (apart : ∀ k, ¬ Straddles key l (k * size)) (number : Nat)
    (order : Arranged key l sorted) : (pages orders size number).Perm (sorted.take (number * size)) := by
  induction number generalizing sorted with
  | zero => simp [pages]
  | succ number ih =>
    rw [pages_succ]
    have here := (ih (arranged number)).append_right (((orders number).drop (number * size)).take size)
    rw [← take_add] at here
    rw [Nat.succ_mul]
    exact here.trans ((arranged number).take_perm order (by rw [← Nat.succ_mul]; exact apart (number + 1)))

/-- Pages whose ends fall on no tie hold every element once. -/
theorem pages_perm (arranged : ∀ k, Arranged key l (orders k)) (apart : ∀ k, ¬ Straddles key l (k * size)) {number : Nat}
    (enough : l.length ≤ number * size) : (pages orders size number).Perm l := by
  have first := arranged 0
  have all := pages_perm_take arranged apart number first
  rw [take_of_length_le (by rwa [first.perm.length_eq])] at all
  exact all.trans first.perm

/-! ### Ties -/

theorem mem_page (positive : 0 < size) (here : sorted[i]? = some x) : x ∈ (sorted.drop (i / size * size)).take size := by
  obtain ⟨within, rfl⟩ := List.getElem?_eq_some_iff.mp here
  have split := Nat.div_add_mod' i size
  rw [mem_take_iff_getElem]
  refine ⟨i % size, ?_, ?_⟩
  · have rest := Nat.mod_lt i positive
    rw [length_drop]
    omega
  · rw [getElem_drop]
    congr 1

/-- An element of two pages is repeated. -/
theorem pages_not_nodup {number j k : Nat} (earlier : j < k) (within : k < number)
    (left : x ∈ ((orders j).drop (j * size)).take size) (right : x ∈ ((orders k).drop (k * size)).take size) :
    ¬ (pages orders size number).Nodup := by
  intro nodup
  have disjoint := pairwise_iff_getElem.mp (nodup_flatMap.mp nodup).2 j k (by simpa using earlier.trans within)
    (by simpa using within) earlier
  rw [getElem_range, getElem_range] at disjoint
  exact disjoint left right

/-- Two elements with one key that stand on the two sides of a position do not do so
    when the list is reversed before it is sorted. -/
theorem exists_tied (nodup : l.Nodup) (tied : Straddles key l m) :
    ∃ x y i, i + 1 = m ∧ (sortBy key l)[i]? = some x ∧ (sortBy key l)[m]? = some y ∧
      ∃ j, j < m ∧ (sortBy key l.reverse)[j]? = some y ∨ m ≤ j ∧ (sortBy key l.reverse)[j]? = some x := by
  obtain ⟨z, -, before, beyond⟩ := tied
  have sorted : Arranged key l (sortBy key l) := arranged_sortBy (.refl l)
  obtain ⟨i, rfl⟩ : ∃ i, m = i + 1 := ⟨m - 1, by omega⟩
  have right : i + 1 < (sortBy key l).length := by
    rw [sorted.perm.length_eq]
    exact beyond.trans_le countP_le_length
  have left : i < (sortBy key l).length := by omega
  refine ⟨_, _, i, rfl, getElem?_eq_getElem left, getElem?_eq_getElem right, ?_⟩
  have keyX := (sorted.key_eq_iff left (key z)).mpr ⟨by omega, by omega⟩
  have keyY := (sorted.key_eq_iff right (key z)).mpr ⟨by omega, by omega⟩
  have pair : [(sortBy key l)[i], (sortBy key l)[i + 1]] <+ sortBy key l := by
    rw [cons_sublist_iff]
    refine ⟨(sortBy key l).take (i + 1), (sortBy key l).drop (i + 1), (take_append_drop _ _).symm, ?_, ?_⟩
    · exact mem_take_iff_getElem.mpr ⟨i, by omega, rfl⟩
    · exact singleton_sublist.mpr (mem_drop_iff_getElem.mpr ⟨0, by simpa using right, rfl⟩)
  generalize (sortBy key l)[i] = x at keyX pair ⊢
  generalize (sortBy key l)[i + 1] = y at keyY pair ⊢
  have memberX : x ∈ l := sorted.perm.mem_iff.mp (mem_of_before pair).1
  have memberY : y ∈ l := sorted.perm.mem_iff.mp (mem_of_before pair).2
  have different : x ≠ y := by simpa using (sorted.perm.nodup_iff.mpr nodup).sublist pair
  have given : [x, y] <+ l := by
    rcases (before_sortBy_iff nodup memberX memberY different).mp pair with smaller | ⟨-, given⟩
    · exact absurd smaller (by rw [keyX, keyY]; exact lt_irrefl _)
    · exact given
  have reversed : [y, x] <+ sortBy key l.reverse :=
    (before_sortBy_iff (nodup_reverse.mpr nodup) (mem_reverse.mpr memberY) (mem_reverse.mpr memberX) different.symm).mpr
      (.inr ⟨keyY.trans keyX.symm, given.reverse⟩)
  obtain ⟨front, back, split, inFront, inBack⟩ := cons_sublist_iff.mp reversed
  by_cases short : front.length ≤ i + 1
  · obtain ⟨j, within, same⟩ := getElem_of_mem inFront
    refine ⟨j, .inl ⟨by omega, ?_⟩⟩
    rw [split, getElem?_append_left within, getElem?_eq_getElem within, same]
  · obtain ⟨j, within, same⟩ := getElem_of_mem (singleton_sublist.mp inBack)
    refine ⟨front.length + j, .inr ⟨by omega, ?_⟩⟩
    rw [split, getElem?_append_right (by omega), Nat.add_sub_cancel_left, getElem?_eq_getElem within, same]

/-- Where a tie falls on the end of a page, one page in the reversed order repeats an element. -/
theorem pages_repeat {k number : Nat} (nodup : l.Nodup) (positive : 0 < size) (tied : Straddles key l (k * size))
    (enough : l.length ≤ number * size) :
    ∃ q, ¬ (pages (fun j => if j = q then sortBy key l.reverse else sortBy key l) size number).Nodup := by
  obtain ⟨x, y, i, next, left, right, j, turned⟩ := exists_tied nodup tied
  have length (s : List α) (visit : s.Perm l) : (sortBy key s).length = l.length := ((sortBy_perm key s).trans visit).length_eq
  refine ⟨j / size, ?_⟩
  rcases turned with ⟨early, here⟩ | ⟨late, here⟩
  · -- `y` is read too early on the page in the reversed order, and once more on its own
    have within : k * size < l.length := by
      rw [← length l (.refl l)]
      exact (List.getElem?_eq_some_iff.mp right).1
    have before : j / size < k := Nat.div_lt_of_lt_mul (by rwa [Nat.mul_comm])
    have own := mem_page positive right
    rw [Nat.mul_div_cancel _ positive] at own
    refine pages_not_nodup (x := y) before (Nat.lt_of_mul_lt_mul_right (within.trans_le enough)) ?_ ?_
    · rw [if_pos rfl]
      exact mem_page positive here
    · rw [if_neg (Nat.ne_of_gt before)]
      exact own
  · -- `x` is read on its own page, and once more on the later one in the reversed order
    have within : j < number * size := by
      refine lt_of_lt_of_le ?_ enough
      rw [← length l.reverse (reverse_perm l)]
      exact (List.getElem?_eq_some_iff.mp here).1
    have before : i / size < j / size := by
      have below : i / size < k := Nat.div_lt_of_lt_mul (by rw [Nat.mul_comm]; omega)
      exact below.trans_le ((Nat.le_div_iff_mul_le positive).mpr late)
    refine pages_not_nodup (x := x) before (Nat.div_lt_of_lt_mul (by rwa [Nat.mul_comm])) ?_ ?_
    · rw [if_neg (Nat.ne_of_lt before)]
      exact mem_page positive left
    · rw [if_pos rfl]
      exact mem_page positive here

end Microserver.TiedPages
