import Microserver.Reachable

/-!
Which names createCollection accepts. A table keeps the name that its collection
was created under, and rows of `collection_references` outlive their owner, so a
name that is not registered may still be taken below the registry.
-/
namespace Microserver.FreeNames
open Microserver.Store Microserver.Programs Microserver.Statements Microserver.Operations Microserver.Schema
open Microserver.Histories Microserver.Reachable

/-- createCollection returns nil and registers the name. -/
def Creates (h : Host) (name : String) (hasVector : Bool) (dimensions : Int) (references : ReferenceMap) (s : DB) : Prop :=
  ((machine h).eval (createCollection name hasVector dimensions references) s).1 = .ok () ∧
    ((machine h).eval (createCollection name hasVector dimensions references) s).2.registered name = true

/-- createCollection accepts the value of `on_delete`. -/
def KnownPolicy (ref : ReferenceSpec) : Prop :=
  ref.onDelete = "" ∨ ref.onDelete = onDeleteRestrict ∨ ref.onDelete = onDeleteSetNull

/-- Nothing below the registry is in the way of the new collection: no
    registered collection has a table of a name that the new one would own, and
    no row that is left over declares a field of it. -/
structure Unclaimed (name : String) (hasVector : Bool) (references : ReferenceMap) (s : DB) : Prop where
  tables : ∀ c ∈ s.collections, ∀ n ∈ ownedTables c, n ∉ ownedTables (newCollection name hasVector 0)
  fields : ∀ r ∈ s.references, r.collectionName = name → ∀ e ∈ references.entries, r.fieldName ≠ e.1
  policies : ∀ e ∈ references.entries, KnownPolicy e.2

variable {h : Host} {s s' : DB} {name : String} {hasVector : Bool} {dimensions : Int} {references : ReferenceMap}

/-! ### Where the tables come from -/

/-- Every table is one of openVecDB or belongs to a registered collection. -/
def Accounted (s : DB) : Prop :=
  ∀ n, (s.tables n).isSome = true → n ∈ systemTables ∨ ∃ c ∈ s.collections, n ∈ ownedTables c

theorem start_accounted : Accounted openVecDB := by
  intro n there
  by_cases system : n ∈ systemTables
  · exact .inl system
  · simp [openVecDB, system] at there

theorem Accounted.createCollection (accounted : Accounted s)
    (done : createCollectionTx name hasVector dimensions references s = .ok s') : Accounted s' := by
  obtain ⟨-, -, -, s₁, created, rfl⟩ := createCollectionTx_ok done
  obtain ⟨-, -, -, -, -, -, -, others⟩ := createTables_ok (c := newCollection name hasVector dimensions) created
  intro n there
  by_cases own : n ∈ ownedTables (newCollection name hasVector dimensions)
  · exact .inr ⟨_, List.mem_append_right _ (List.mem_singleton.mpr rfl), own⟩
  · have before : (s.tables n).isSome = true := by rwa [← others n own]
    refine (accounted n before).imp_right ?_
    rintro ⟨c, registered, owned⟩
    exact ⟨c, List.mem_append_left _ registered, owned⟩

theorem Accounted.renameCollection {oldName newName : String} (accounted : Accounted s)
    (done : renameCollectionTx oldName newName s = .ok s') : Accounted s' := by
  obtain ⟨-, -, -, rfl⟩ := renameCollectionTx_ok_iff.mp done
  intro n there
  refine (accounted n there).imp_right ?_
  rintro ⟨c, registered, owned⟩
  exact ⟨{ c with name := relabel oldName newName c.name }, List.mem_map.mpr ⟨c, registered, rfl⟩, owned⟩

theorem Accounted.dropCollection {coll : Collection} (accounted : Accounted s) (sound : Sound s)
    (found : s.lookup name = some coll) (done : dropCollectionTx coll name s = .ok s') : Accounted s' := by
  obtain ⟨registered, named⟩ := DB.lookup_some found
  obtain ⟨t, there, -, registry, removes, -, gone, gone'⟩ := dropCollectionTx_ok done
  intro n left
  have same : s'.tables n = s.tables n := by
    rcases removes n with same | none
    · exact same
    · rw [none] at left
      cases left
  rw [same] at left
  refine (accounted n left).imp_right ?_
  rintro ⟨c, known, owned⟩
  refine ⟨c, ?_, owned⟩
  rw [registry, List.mem_filter]
  refine ⟨known, decide_eq_true fun equal => ?_⟩
  -- what the dropped collection owned is gone
  obtain rfl := sound.name_injective known registered (equal.trans named.symm)
  have main : t.kind = mainKind c := by
    obtain ⟨t', there', kind⟩ := sound.main c known
    obtain rfl := Option.some.inj (there.symm.trans there')
    exact kind
  have absent : s'.tables n = none := by
    rcases List.mem_append.mp owned with first | second
    · exact gone n (by rwa [main])
    · cases vector : c.hasVector with
      | false => simp [vector] at second
      | true =>
        obtain ⟨u, companion, gone₂⟩ := gone' vector
        obtain ⟨u', companion', kind⟩ := sound.fullText c known vector
        obtain rfl := Option.some.inj (companion.symm.trans companion')
        simp only [vector, ↓reduceIte] at second
        exact gone₂ n (by rwa [kind])
  rw [← same, absent] at left
  cases left

theorem reached_accounted (h : Host) (calls : List (Call × List Bool)) : Accounted (reached h calls) := by
  refine reached_invariant start_accounted ?_ h calls
  intro w call next coherent accounted outcome
  cases outcome with
  | schema same =>
    intro n there
    rw [same.isSome] at there
    rw [same.collections]
    exact accounted n there
  | created _ _ done => exact accounted.createCollection done
  | renamed _ done => exact accounted.renameCollection done
  | dropped found done => exact accounted.dropCollection coherent.sound found done

/-- The dimensions do not show in the names of the tables. -/
theorem ownedTables_dimensions (name : String) (hasVector : Bool) (d d' : Int) :
    ownedTables (newCollection name hasVector d) = ownedTables (newCollection name hasVector d') := by
  cases hasVector <;> rfl

/-- The tables of a collection do not meet those of openVecDB. -/
theorem owned_not_system {c : Collection} {n : String} (table : c.tableName = "coll_" ++ name) (owned : n ∈ ownedTables c) :
    n ∉ systemTables := by
  have begins : "coll_".toList <+: n.toList := by
    have collPrefix (rest : String) : "coll_".toList <+: (fold ("coll_" ++ rest)).toList := by
      rw [fold_append, String.toList_append]
      exact List.prefix_append _ _
    cases vector : c.hasVector <;>
      simp only [ownedTables, mainKind, vector, table, tableNames, shadows, ftsTableName, String.append_assoc, ↓reduceIte,
        Bool.false_eq_true, List.map_cons, List.map_nil, List.mem_append, List.mem_cons, List.not_mem_nil, or_false] at owned
    · rw [owned]
      exact collPrefix name
    · rcases owned with (rfl | rfl | rfl | rfl | rfl | rfl | rfl) | rfl | rfl | rfl | rfl | rfl | rfl <;> exact collPrefix _
  have none : ∀ m ∈ systemTables, ¬ "coll_".toList <+: m.toList := by decide
  exact fun system => none n system begins

/-! ### createCollection -/

theorem checked_iff : references.entries.findSome? referenceFieldError = none ↔
    ∀ e ∈ references.entries, collectionNameRe e.1 = true ∧ KnownPolicy e.2 := by
  rw [List.findSome?_eq_none_iff]
  refine forall₂_congr fun e _ => ?_
  unfold referenceFieldError KnownPolicy
  cases valid : collectionNameRe e.1 with
  | false => simp
  | true =>
    simp only [Bool.not_true, Bool.false_eq_true, ↓reduceIte, ite_eq_right_iff, reduceCtorEq, imp_false, true_and]
    tauto

/-- A createCollection that meets no failure does what its transaction does. -/
theorem creates_iff (valid : collectionNameRe name = true)
    (size : hasVector = true → 0 < dimensions ∧ dimensions ≤ maxDimensions) :
    Creates h name hasVector dimensions references s ↔
      references.entries.findSome? referenceFieldError = none ∧
        ∃ s', createCollectionTx name hasVector dimensions references s = .ok s' := by
  have sized : ¬ (hasVector = true ∧ (dimensions ≤ 0 ∨ maxDimensions < dimensions)) := by
    rintro ⟨vector, wrong⟩
    have right := size vector
    omega
  unfold Creates createCollection
  simp only [valid, Bool.not_true, Bool.false_eq_true, ↓reduceIte, sized]
  cases checked : references.entries.findSome? referenceFieldError with
  | some e => simp [Machine.eval, Machine.run]
  | none =>
    cases done : createCollectionTx name hasVector dimensions references s with
    | error e =>
      have ran : (machine h).eval (.call id (.createCollection name hasVector dimensions references)) s = (.error e, s) :=
        run_refused rfl done rfl
      simp [ran]
    | ok s' =>
      have ran : (machine h).eval (.call id (.createCollection name hasVector dimensions references)) s = (.ok (), s') :=
        run_committed rfl done rfl
      obtain ⟨-, -, -, s₁, -, rfl⟩ := createCollectionTx_ok done
      simp [ran, registered_append rfl, newCollection]

/-- In every state that calls reach, createCollection of a valid name that is not
    registered goes through exactly when the name is unclaimed. -/
theorem free_name_usable_iff (h : Host) (calls : List (Call × List Bool)) (name : String) (hasVector : Bool) (dimensions : Int)
    (references : ReferenceMap) (valid : collectionNameRe name = true) (free : (reached h calls).registered name = false)
    (size : hasVector = true → 0 < dimensions ∧ dimensions ≤ maxDimensions)
    (fields : ∀ e ∈ references.entries, collectionNameRe e.1 = true)
    (targets : ∀ e ∈ references.entries, (reached h calls).registered e.2.collection = true) :
    Creates h name hasVector dimensions references (reached h calls) ↔
      Unclaimed name hasVector references (reached h calls) := by
  have sound : Sound (reached h calls) := (run_coherent h calls).sound
  rw [creates_iff valid size, checked_iff]
  constructor
  · rintro ⟨checked, s', done⟩
    obtain ⟨-, -, keys, s₁, created, -⟩ := createCollectionTx_ok done
    obtain ⟨unused, -⟩ := createTables_ok (c := newCollection name hasVector dimensions) created
    refine ⟨?_, ?_, fun e member => (checked e member).2⟩
    · intro c registered n owned clash
      rw [ownedTables_dimensions name hasVector 0 dimensions] at clash
      have there := sound.present c registered n owned
      rw [unused n clash] at there
      cases there
    · intro r stored owner e member same
      exact keys e member r stored ⟨owner, same⟩
  · intro unclaimed
    refine ⟨fun e member => ⟨fields e member, unclaimed.policies e member⟩, ?_⟩
    refine createCollectionTx_goes free targets ?_ ?_
    · intro n owned
      by_contra taken
      rcases reached_accounted h calls n (Option.isSome_iff_ne_none.mpr taken) with system | ⟨c, registered, clash⟩
      · exact owned_not_system rfl owned system
      · rw [ownedTables_dimensions name hasVector dimensions 0] at owned
        exact unclaimed.tables c registered n clash owned
    · rintro e member r stored ⟨owner, same⟩
      exact unclaimed.fields r stored owner e member same

/-- A collection, renamed. -/
def renamedAway : List (Call × List Bool) :=
  [(.createCollection "a" false 0 ⟨[], List.nodup_nil⟩, []), (.renameCollection "a" "b", [])]

/-- A third name is free and usable. -/
theorem free_name_usable_third :
    Creates Host.uniform "c" true 8 ⟨[("f", ⟨"b", ""⟩)], List.nodup_singleton "f"⟩ (reached Host.uniform renamedAway) ↔
      Unclaimed "c" true ⟨[("f", ⟨"b", ""⟩)], List.nodup_singleton "f"⟩ (reached Host.uniform renamedAway) :=
  free_name_usable_iff Host.uniform renamedAway "c" true 8 ⟨[("f", ⟨"b", ""⟩)], List.nodup_singleton "f"⟩ (by decide) (by decide)
    (by decide) (by decide) (by decide)

/-- The first name is free, and its table is still there. -/
theorem renamed_name_unusable :
    ¬ ∀ (h : Host) (calls : List (Call × List Bool)) (name : String) (hasVector : Bool) (dimensions : Int)
      (references : ReferenceMap), collectionNameRe name = true → (reached h calls).registered name = false →
      (hasVector = true → 0 < dimensions ∧ dimensions ≤ maxDimensions) →
      (∀ e ∈ references.entries, collectionNameRe e.1 = true) →
      (∀ e ∈ references.entries, (reached h calls).registered e.2.collection = true) →
      Creates h name hasVector dimensions references (reached h calls) := by
  intro all
  have creates := all Host.uniform renamedAway "a" false 0 ⟨[], List.nodup_nil⟩ (by decide) (by decide) (by decide)
    (by decide) (by decide)
  have refused : ((machine Host.uniform).eval (createCollection "a" false 0 ⟨[], List.nodup_nil⟩)
      (reached Host.uniform renamedAway)).1.isOk = false := by decide
  rw [creates.1] at refused
  cases refused

end Microserver.FreeNames
