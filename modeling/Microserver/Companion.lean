import Mathlib.Data.Set.Function

/-!
A main store and a companion index that holds a copy of its entries. An entry
can be written to the main store first and to the index later; in between its
copy is awaited. `Tracks` says what such a delay may leave behind, and each way
of writing keeps it.
-/
namespace Microserver.Companion
universe u v
variable {ι : Type u} {τ : Type v}

/-- The entries of the other keys. -/
def forget (entries : Set (ι × τ)) (key : ι) : Set (ι × τ) := {p | p ∈ entries ∧ p.1 ≠ key}

/-- The key has an entry. -/
def Holds (entries : Set (ι × τ)) (key : ι) : Prop := ∃ p ∈ entries, p.1 = key

/-- Writing an entry anew changes nothing. -/
theorem insert_forget {entries : Set (ι × τ)} (single : Set.InjOn Prod.fst entries) {p : ι × τ} (member : p ∈ entries) :
    insert p (forget entries p.1) = entries := by
  ext q
  simp only [forget, Set.mem_insert_iff, Set.mem_ofPred_eq]
  constructor
  · rintro (rfl | ⟨there, -⟩)
    · exact member
    · exact there
  · intro there
    by_cases same : q.1 = p.1
    · exact .inl (single there member same)
    · exact .inr ⟨there, same⟩

/-- The index follows the main store but for the copies that are awaited. -/
structure Tracks (main index awaited : Set (ι × τ)) : Prop where
  indexed : index ⊆ main
  covered : main ⊆ index ∪ awaited
  expected : ∀ p ∈ awaited, p ∈ main ∨ Holds index p.1

namespace Tracks
variable {main index awaited : Set (ι × τ)} {p : ι × τ} {key : ι}

theorem of_eq (same : main = index) : Tracks main index ∅ :=
  ⟨same.symm.subset, by rw [Set.union_empty]; exact same.subset, fun _ impossible => impossible.elim⟩

/-- Once each awaited key is in the index, the index is the main store. -/
theorem eq (tracks : Tracks main index awaited) (single : Set.InjOn Prod.fst main)
    (settled : ∀ p ∈ awaited, Holds index p.1) : main = index := by
  refine Set.Subset.antisymm ?_ tracks.indexed
  intro p stored
  rcases tracks.covered stored with copied | pending
  · exact copied
  · obtain ⟨q, copied, same⟩ := settled p pending
    rwa [← single (tracks.indexed copied) stored same]

/-- The main store gets an entry whose copy is awaited from then on. -/
theorem write (tracks : Tracks main index awaited) (p : ι × τ) : Tracks (insert p main) index (insert p awaited) := by
  refine ⟨tracks.indexed.trans (Set.subset_insert p main), ?_, ?_⟩
  · rintro q (rfl | stored)
    · exact .inr (Set.mem_insert q awaited)
    · exact (tracks.covered stored).imp_right fun pending => Set.mem_insert_of_mem p pending
  · rintro q (rfl | pending)
    · exact .inl (Set.mem_insert q main)
    · exact (tracks.expected q pending).imp_left fun stored => Set.mem_insert_of_mem p stored

/-- An awaited copy arrives. -/
theorem copy (tracks : Tracks main index (insert p awaited)) (fresh : ¬ Holds index p.1) :
    Tracks main (insert p index) awaited := by
  refine ⟨?_, ?_, ?_⟩
  · rintro q (rfl | copied)
    · exact (tracks.expected q (Set.mem_insert q awaited)).resolve_right fresh
    · exact tracks.indexed copied
  · intro q stored
    rcases tracks.covered stored with copied | rfl | pending
    · exact .inl (Set.mem_insert_of_mem p copied)
    · exact .inl (Set.mem_insert q index)
    · exact .inr pending
  · intro q pending
    refine (tracks.expected q (Set.mem_insert_of_mem p pending)).imp_right ?_
    rintro ⟨r, copied, same⟩
    exact ⟨r, Set.mem_insert_of_mem p copied, same⟩

/-- An awaited copy is given up: harmless when its key has one. -/
theorem giveUp (tracks : Tracks main index (insert p awaited)) (single : Set.InjOn Prod.fst main)
    (present : Holds index p.1) : Tracks main index awaited := by
  refine ⟨tracks.indexed, ?_, fun q pending => tracks.expected q (Set.mem_insert_of_mem p pending)⟩
  intro q stored
  rcases tracks.covered stored with copied | rfl | pending
  · exact .inl copied
  · obtain ⟨r, copied, same⟩ := present
    rw [← single (tracks.indexed copied) stored same]
    exact .inl copied
  · exact .inr pending

/-- An entry is written to both. -/
theorem both (tracks : Tracks main index awaited) (p : ι × τ) : Tracks (insert p main) (insert p index) awaited := by
  refine ⟨Set.insert_subset_insert tracks.indexed, ?_, ?_⟩
  · rintro q (rfl | stored)
    · exact .inl (Set.mem_insert q index)
    · exact (tracks.covered stored).imp_left fun copied => Set.mem_insert_of_mem p copied
  · intro q pending
    refine (tracks.expected q pending).imp (fun stored => Set.mem_insert_of_mem p stored) ?_
    rintro ⟨r, copied, same⟩
    exact ⟨r, Set.mem_insert_of_mem p copied, same⟩

/-- A key for which no copy is awaited goes from both. -/
theorem remove (tracks : Tracks main index awaited) (quiet : ¬ Holds awaited key) :
    Tracks (forget main key) (forget index key) awaited := by
  refine ⟨fun q copied => ⟨tracks.indexed copied.1, copied.2⟩, ?_, ?_⟩
  · rintro q ⟨stored, other⟩
    exact (tracks.covered stored).imp_left fun copied => ⟨copied, other⟩
  · intro q pending
    have other : q.1 ≠ key := fun same => quiet ⟨q, pending, same⟩
    refine (tracks.expected q pending).imp (fun stored => ⟨stored, other⟩) ?_
    rintro ⟨r, copied, same⟩
    exact ⟨r, ⟨copied, by rw [same]; exact other⟩, same⟩

/-- The entry of a key is replaced in both, whatever is awaited. -/
theorem replace (tracks : Tracks main index awaited) (p : ι × τ) :
    Tracks (insert p (forget main p.1)) (insert p (forget index p.1)) awaited := by
  refine ⟨Set.insert_subset_insert fun q copied => ⟨tracks.indexed copied.1, copied.2⟩, ?_, ?_⟩
  · rintro q (rfl | ⟨stored, other⟩)
    · exact .inl (Set.mem_insert q _)
    · exact (tracks.covered stored).imp_left fun copied => Set.mem_insert_of_mem p ⟨copied, other⟩
  · intro q pending
    by_cases same : q.1 = p.1
    · exact .inr ⟨p, Set.mem_insert p _, same.symm⟩
    · refine (tracks.expected q pending).imp (fun stored => Set.mem_insert_of_mem p ⟨stored, same⟩) ?_
      rintro ⟨r, copied, equal⟩
      exact ⟨r, Set.mem_insert_of_mem p ⟨copied, by rw [equal]; exact same⟩, equal⟩

end Tracks
end Microserver.Companion
