import Microserver.Items

/-!
Rules for the operations on items. Under a postcondition that every failure
meets, a part that only reads is judged by what it returns: the checks of
validateReferences come down to `Accepts`. The operations that store items then
come down to their writes.
-/
namespace Microserver.Reads
open Microserver.Values Microserver.Store Microserver.Programs Microserver.Statements Microserver.Operations
open Microserver.Items

variable {h : Host} {s : DB} {α : Type}

/-- A field is unset, or it holds the id of an item of a collection in `target`. -/
def Resolves (s : DB) (target : Collection → Prop) (value : Option Json) : Prop :=
  value = none ∨ value = some .null ∨
    ∃ n, value = some (.int n) ∧ ∃ c ∈ s.collections, target c ∧ ∃ row ∈ items s c.tableName, row.id = n

instance Resolves.decidable (s : DB) (target : Collection → Prop) [DecidablePred target] (value : Option Json) :
    Decidable (Resolves s target value) :=
  match value with
  | none => .isTrue (.inl rfl)
  | some .null => .isTrue (.inr (.inl rfl))
  | some (.int n) =>
    decidable_of_iff (∃ c ∈ s.collections, target c ∧ ∃ row ∈ items s c.tableName, row.id = n)
      ⟨fun there => .inr (.inr ⟨n, rfl, there⟩), by
        rintro (absent | isNull | ⟨m, int, there⟩)
        · cases absent
        · cases isNull
        · cases int
          exact there⟩
  | some (.bool _) | some (.real _) | some (.str _) | some (.arr _) | some (.obj _) => .isFalse (by simp [Resolves])

/-- validateReferences accepts the data for a collection. -/
def Accepts (s : DB) (name : String) (data : Option Json) : Prop :=
  s.owned name = [] ∨ ∃ parsed, unmarshalFields data = .ok parsed ∧
    ∀ r ∈ s.owned name, Resolves s (fun c => s.lookup r.targetCollection = some c) (parsed.lookup r.fieldName)

theorem Resolves.mono {target target' : Collection → Prop} {value : Option Json} (resolves : Resolves s target value)
    (weaker : ∀ c, target c → target' c) : Resolves s target' value := by
  rcases resolves with absent | isNull | ⟨n, int, c, member, meets, there⟩
  · exact .inl absent
  · exact .inr (.inl isNull)
  · exact .inr (.inr ⟨n, int, c, member, weaker c meets, there⟩)

/-- The parsed fields are the last ones of the data that is stored. -/
theorem lastField_dataOrEmpty {data : Option Json} {parsed : List (String × Json)} (done : unmarshalFields data = .ok parsed)
    (name : String) : (dataOrEmpty data).lastField name = parsed.lookup name := by
  cases data with
  | none => cases done; rfl
  | some value =>
    cases value with
    | null => cases done; rfl
    | obj fields =>
      cases done
      exact (lookup_unmarshalMap fields name).symm
    | bool _ | int _ | real _ | str _ | arr _ => simp [unmarshalFields] at done

/-! ### Single reads -/

theorem wp_read {Q : Except Err α → DB → Prop} {context : Err → Err} {query : Host → DB → Except Err α}
    (onError : ∀ e, Q (.error e) s) :
    (machine h).wp Q (.call context (.read query)) s ↔ ∀ b, query h s = .ok b → Q (.ok b) s := by
  rw [Machine.wp_call]
  constructor
  · rintro ⟨onOk, -⟩ b found
    exact onOk b s (by simp [machine, Stmt.exec, found, Except.map])
  · intro each
    refine ⟨?_, fun e _ => onError _, onError _⟩
    intro b s' ran
    cases found : query h s with
    | error e => simp [machine, Stmt.exec, found, Except.map] at ran
    | ok b' =>
      simp only [machine, Stmt.exec, found, Except.map, Except.ok.injEq, Prod.mk.injEq] at ran
      rw [← ran.1, ← ran.2]
      exact each b' found

theorem wp_getCollection {Q : Except Err Collection → DB → Prop} {name : String} :
    (machine h).wp Q (getCollection name) s ↔
      (∀ c, s.lookup name = some c → Q (.ok c) s) ∧ (s.lookup name = none → Q (.error .collectionNotFound) s) ∧
        Q (.error (.wrapped "looking up collection" (machine h).fault)) s := by
  unfold getCollection
  simp only [Prog.bind_eq, Machine.wp_bind, Machine.wp_call, Machine.Then, machine, Stmt.exec, Except.map]
  cases found : s.lookup name with
  | none => simp [Machine.wp]
  | some c => simp [Machine.wp]

theorem wp_getCollection_of {Q : Except Err Collection → DB → Prop} {name : String} (onError : ∀ e, Q (.error e) s) :
    (machine h).wp Q (getCollection name) s ↔ ∀ c, s.lookup name = some c → Q (.ok c) s := by
  rw [wp_getCollection]
  exact ⟨fun all => all.1, fun each => ⟨each, fun _ => onError _, onError _⟩⟩

theorem wp_embed {Q : Except Err Vector32 → DB → Prop} {context text : String} (onError : ∀ e, Q (.error e) s) :
    (machine h).wp Q (embed context text) s ↔ ∀ vec, h.embed text = .ok vec → Q (.ok vec) s :=
  wp_read onError

theorem wp_getDocumentByID {Q : Except Err Document → DB → Prop} {coll : Collection} {id : Int}
    (onError : ∀ e, Q (.error e) s) :
    (machine h).wp Q (getDocumentByID coll id) s ↔
      ∀ r, s.rowById coll.tableName coll.hasVector id = .ok (some r) →
        Q (.ok ⟨r.id, if coll.hasVector then r.text else "", r.data, none⟩) s := by
  unfold getDocumentByID
  rw [Prog.bind_eq, Machine.wp_bind, wp_read (by intro e; exact onError e)]
  constructor
  · intro each r found
    exact each (some r) found
  · intro each found there
    cases found with
    | none => exact onError _
    | some r => exact each r there

/-! ### validateReferences -/

theorem countById_ne_zero {table : String} {id : Int} :
    (∃ n, s.countById table id = .ok n ∧ n ≠ 0) ↔ ∃ row ∈ items s table, row.id = id := by
  unfold DB.countById items
  cases docs : s.docs table with
  | error e => simp [Except.map]
  | ok t =>
    simp only [Except.map, Except.ok.injEq, exists_eq_left', ne_eq, List.countP_eq_zero, beq_iff_eq, not_forall,
      not_not, exists_prop]

/-- An integer resolves when the count of its id in the target is not zero. -/
theorem resolves_int_iff {name : String} {refID : Int} :
    Resolves s (fun c => s.lookup name = some c) (some (.int refID)) ↔
      ∃ target, s.lookup name = some target ∧ ∃ n, s.countById target.tableName refID = .ok n ∧ n ≠ 0 := by
  simp only [countById_ne_zero]
  constructor
  · rintro (absent | isNull | ⟨n, int, c, -, found, there⟩)
    · cases absent
    · cases isNull
    · cases int
      exact ⟨c, found, there⟩
  · rintro ⟨c, found, there⟩
    exact .inr (.inr ⟨refID, rfl, c, (DB.lookup_some found).1, found, there⟩)

/-- The loop passes exactly when every declared field resolves. -/
theorem wp_validateEach {Q : Except Err Unit → DB → Prop} {parsed : List (String × Json)} {refs : List Reference}
    (onError : ∀ e, Q (.error e) s) :
    (machine h).wp Q (validateEach parsed refs) s ↔
      ((∀ ref ∈ refs, Resolves s (fun c => s.lookup ref.collection = some c) (parsed.lookup ref.field)) →
        Q (.ok ()) s) := by
  induction refs with
  | nil => simp [validateEach, Machine.wp]
  | cons ref rest ih =>
    have skip (unset : parsed.lookup ref.field = none ∨ parsed.lookup ref.field = some .null) :
        ((∀ r ∈ ref :: rest, Resolves s (fun c => s.lookup r.collection = some c) (parsed.lookup r.field)) ↔
          ∀ r ∈ rest, Resolves s (fun c => s.lookup r.collection = some c) (parsed.lookup r.field)) := by
      rw [List.forall_mem_cons]
      refine and_iff_right ?_
      rcases unset with absent | isNull
      · exact .inl absent
      · exact .inr (.inl isNull)
    have refuse (wrong : ¬ Resolves s (fun c => s.lookup ref.collection = some c) (parsed.lookup ref.field)) :
        (∀ r ∈ ref :: rest, Resolves s (fun c => s.lookup r.collection = some c) (parsed.lookup r.field)) → Q (.ok ()) s :=
      fun all => absurd (all ref List.mem_cons_self) wrong
    unfold validateEach
    cases value : parsed.lookup ref.field with
    | none =>
      rw [skip (.inl value)]
      exact ih
    | some v =>
      cases v with
      | null =>
        rw [skip (.inr value)]
        exact ih
      | int refID =>
        have point : Resolves s (fun c => s.lookup ref.collection = some c) (parsed.lookup ref.field) ↔
            ∃ target, s.lookup ref.collection = some target ∧ ∃ n, s.countById target.tableName refID = .ok n ∧ n ≠ 0 := by
          rw [value]
          exact resolves_int_iff
        simp only [Prog.bind_eq]
        rw [Machine.wp_bind, Machine.wp_within, wp_getCollection_of (by intro e; exact onError _)]
        constructor
        · intro each all
          obtain ⟨target, found, n, counted, positive⟩ := point.mp (all ref List.mem_cons_self)
          have after := each target found
          simp only [Except.mapError, Machine.Then] at after
          rw [Machine.wp_bind, wp_read (by intro e; exact onError _)] at after
          have passed := after n counted
          simp only [Machine.Then, positive, ↓reduceIte] at passed
          exact ih.mp passed fun r member => all r (List.mem_cons_of_mem _ member)
        · intro passes target found
          simp only [Except.mapError, Machine.Then]
          rw [Machine.wp_bind, wp_read (by intro e; exact onError _)]
          intro n counted
          by_cases zero : n = 0
          · simp only [Machine.Then, zero, ↓reduceIte]
            exact onError _
          · simp only [Machine.Then, zero, ↓reduceIte]
            refine ih.mpr fun all => passes ?_
            rw [List.forall_mem_cons]
            exact ⟨point.mpr ⟨target, found, n, counted, zero⟩, all⟩
      | bool _ | real _ | str _ | arr _ | obj _ =>
        refine ⟨fun _ => refuse ?_, fun _ => onError _⟩
        rw [value]
        simp [Resolves]

/-- validateReferences returns nil exactly when the data is acceptable. -/
theorem wp_validateReferences {Q : Except Err Unit → DB → Prop} {name : String} {data : Option Json}
    (onError : ∀ e, Q (.error e) s) :
    (machine h).wp Q (validateReferences name data) s ↔ (Accepts s name data → Q (.ok ()) s) := by
  unfold validateReferences getReferences
  rw [Prog.bind_eq, Machine.wp_bind, wp_read (by intro e; exact onError _)]
  simp only [Except.ok.injEq, forall_eq', Machine.Then, List.isEmpty_iff, List.map_eq_nil_iff, h.visit_eq_nil]
  by_cases empty : s.owned name = []
  · rw [if_pos empty]
    simp [Machine.wp, Accepts, empty]
  · rw [if_neg empty]
    cases parse : unmarshalFields data with
    | error e => simp [Machine.wp, Accepts, empty, parse, onError]
    | ok parsed =>
      rw [wp_validateEach onError]
      simp only [Accepts, empty, false_or, parse, Except.ok.injEq, exists_eq_left', List.forall_mem_map,
        Host.mem_visit]

/-! ### The operations on items -/

variable {coll : Collection} {text : String} {data : Option Json}

/-- insertDocument: one INSERT, or two for a collection with vectors. -/
theorem wp_insertDocument {Q : Except Err Int → DB → Prop} {id : Option Int} (onError : ∀ e, Q (.error e) s)
    (plain : coll.hasVector = false → Accepts s coll.name data → ∀ assigned s',
      s.insertRow coll.tableName id (.data (dataOrEmpty data)) = .ok (assigned, s') → Q (.ok assigned) s')
    (vector : coll.hasVector = true → Accepts s coll.name data → ∀ vec, h.embed text = .ok vec → ∀ assigned s',
      s.insertRow coll.tableName id (.vector vec text (dataOrEmpty data)) = .ok (assigned, s') →
        (∀ e, Q (.error e) s') ∧ ∀ again s'',
          s'.insertRow (ftsTableName coll.tableName) (some assigned) (.fullText text) = .ok (again, s'') →
            Q (.ok assigned) s'') :
    (machine h).wp Q (insertDocument coll id text data) s := by
  unfold insertDocument
  rw [Prog.bind_eq, Machine.wp_bind, wp_validateReferences (by intro e; exact onError e)]
  intro accepted
  cases kind : coll.hasVector with
  | false =>
    simp only [Machine.Then, Bool.false_eq_true, ↓reduceIte]
    rw [Machine.wp_call]
    exact ⟨fun assigned s' inserted => plain kind accepted assigned s' inserted, fun _ _ => onError _, onError _⟩
  | true =>
    simp only [Machine.Then, ↓reduceIte, Prog.bind_eq]
    rw [Machine.wp_bind, wp_embed (by intro e; exact onError e)]
    intro vec embedded
    simp only [Machine.Then]
    rw [Machine.wp_bind, Machine.wp_call]
    refine ⟨?_, fun _ _ => onError _, onError _⟩
    intro assigned s' inserted
    obtain ⟨onError', onOk⟩ := vector kind accepted vec embedded assigned s' inserted
    simp only [Machine.Then]
    rw [Machine.wp_bind, Machine.wp_call]
    exact ⟨fun again s'' indexed => onOk again s'' indexed, fun _ _ => onError' _, onError' _⟩

/-- What prepareItems makes of an entry that passes its checks. -/
structure PreparedFrom (h : Host) (s : DB) (coll : Collection) (it : BulkDocumentItem) (p : Prepared) : Prop where
  text : p.text = it.text
  data : p.data = dataOrEmpty it.data
  accepted : Accepts s coll.name it.data
  embedded : coll.hasVector = true → h.embed it.text = .ok p.serialized

theorem wp_prepareItems {Q : Except Err (List Prepared) → DB → Prop} {i : Nat} {items : List BulkDocumentItem}
    (onError : ∀ e, Q (.error e) s)
    (onOk : ∀ preparedItems, (∀ p ∈ preparedItems, ∃ it ∈ items, PreparedFrom h s coll it p) →
      (∀ it ∈ items, Accepts s coll.name it.data) → Q (.ok preparedItems) s) :
    (machine h).wp Q (prepareItems coll i items) s := by
  induction items generalizing i Q with
  | nil => exact onOk [] (by simp) (by simp)
  | cons it rest ih =>
    unfold prepareItems
    rw [Prog.bind_eq, Machine.wp_bind, Machine.wp_within, wp_validateReferences (by intro e; exact onError _)]
    intro accepted
    have follow (serialized : Vector32) (embedded : coll.hasVector = true → h.embed it.text = .ok serialized) :
        (machine h).wp Q ((prepareItems coll (i + 1) rest).bind fun preparedItems =>
          .ret (⟨it.id, it.text, dataOrEmpty it.data, serialized⟩ :: preparedItems)) s := by
      rw [Machine.wp_bind]
      refine ih (by intro e; exact onError e) ?_
      intro preparedItems each others
      refine onOk _ ?_ (List.forall_mem_cons.mpr ⟨accepted, others⟩)
      rw [List.forall_mem_cons]
      refine ⟨⟨it, List.mem_cons_self, rfl, rfl, accepted, embedded⟩, ?_⟩
      intro p member
      obtain ⟨it', listed, prepares⟩ := each p member
      exact ⟨it', List.mem_cons_of_mem _ listed, prepares⟩
    simp only [Except.mapError, Machine.Then, Prog.bind_eq, Prog.pure_eq]
    cases vector : coll.hasVector with
    | false => exact follow [] (by simp [vector])
    | true =>
      simp only [↓reduceIte]
      rw [Machine.wp_bind, wp_embed (by intro e; exact onError e)]
      intro vec embedded
      exact follow vec fun _ => embedded

/-- insertDocumentBulk: checks, then one transaction. -/
theorem wp_insertDocumentBulk {Q : Except Err (List Int) → DB → Prop} {items : List BulkDocumentItem}
    (onError : ∀ e, Q (.error e) s)
    (onOk : ∀ preparedItems, (∀ p ∈ preparedItems, ∃ it ∈ items, PreparedFrom h s coll it p) →
      (∀ it ∈ items, Accepts s coll.name it.data) → ∀ ids s',
        insertDocumentBulkTx coll 0 preparedItems s = .ok (ids, s') → Q (.ok ids) s') :
    (machine h).wp Q (insertDocumentBulk coll items) s := by
  unfold insertDocumentBulk
  rw [Prog.bind_eq, Machine.wp_bind]
  refine wp_prepareItems (by intro e; exact onError e) ?_
  intro preparedItems each accepted
  simp only [Machine.Then]
  rw [Machine.wp_call]
  exact ⟨fun ids s' inserted => onOk preparedItems each accepted ids s' inserted, fun _ _ => onError _, onError _⟩

/-- updateDocument: one UPDATE, or one transaction for a collection with vectors. -/
theorem wp_updateDocument {Q : Except Err Bool → DB → Prop} {id : Int} (onError : ∀ e, Q (.error e) s)
    (plain : coll.hasVector = false → Accepts s coll.name data → ∀ n s',
      s.updateData coll.tableName (dataOrEmpty data) id = .ok (n, s') → Q (.ok (decide (n > 0))) s')
    (vector : coll.hasVector = true → Accepts s coll.name data → ∀ vec, h.embed text = .ok vec → ∀ found s',
      updateDocumentTx coll id text (dataOrEmpty data) vec s = .ok (found, s') → Q (.ok found) s') :
    (machine h).wp Q (updateDocument coll id text data) s := by
  unfold updateDocument
  rw [Prog.bind_eq, Machine.wp_bind, wp_validateReferences (by intro e; exact onError e)]
  intro accepted
  cases kind : coll.hasVector with
  | false =>
    simp only [Machine.Then, Bool.not_false, ↓reduceIte, Prog.bind_eq]
    rw [Machine.wp_bind, Machine.wp_call]
    exact ⟨fun n s' updated => plain kind accepted n s' updated, fun _ _ => onError _, onError _⟩
  | true =>
    simp only [Machine.Then, Bool.not_true, Bool.false_eq_true, ↓reduceIte, Prog.bind_eq]
    rw [Machine.wp_bind, wp_embed (by intro e; exact onError e)]
    intro vec embedded
    simp only [Machine.Then]
    rw [Machine.wp_call]
    exact ⟨fun found s' updated => vector kind accepted vec embedded found s' updated, fun _ _ => onError _, onError _⟩

end Microserver.Reads
