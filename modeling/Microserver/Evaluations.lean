import Microserver.Reads

/-!
The reading parts of the operations run alone, without failures: what each of
them returns. None of them changes the database.
-/
namespace Microserver.Evaluations
open Microserver.Values Microserver.Store Microserver.Programs Microserver.Statements Microserver.Operations
open Microserver.Items Microserver.Reads

variable {h : Host} {s : DB} {α : Type}

theorem eval_read (context : Err → Err) (query : Host → DB → Except Err α) :
    (machine h).eval (.call context (.read query)) s = ((query h s).mapError context, s) := by
  have exec : (machine h).exec (.read query) s = (query h s).map (fun b => (b, s)) := rfl
  unfold Prog.call
  rw [Machine.eval_stmt, exec]
  cases query h s <;> rfl

theorem eval_getCollection (name : String) : (machine h).eval (getCollection name) s =
    ((s.lookup name).elim (.error .collectionNotFound) .ok, s) := by
  unfold getCollection
  rw [Prog.bind_eq, Machine.eval_bind, eval_read]
  cases s.lookup name <;> rfl

theorem eval_embed (context text : String) : (machine h).eval (embed context text) s =
    ((h.embed text).mapError (.wrapped context), s) := eval_read _ _

/-- The loop returns nil exactly when every declared field resolves. -/
theorem eval_validateEach (parsed : List (String × Json)) (refs : List Reference) :
    ∃ r, (machine h).eval (validateEach parsed refs) s = (r, s) ∧
      (r = .ok () ↔ ∀ ref ∈ refs, Resolves s (fun c => s.lookup ref.collection = some c) (parsed.lookup ref.field)) := by
  induction refs with
  | nil => exact ⟨.ok (), rfl, by simp⟩
  | cons ref rest ih =>
    obtain ⟨r, rests, exactly⟩ := ih
    have skip (unset : parsed.lookup ref.field = none ∨ parsed.lookup ref.field = some .null) :
        r = .ok () ↔ ∀ r ∈ ref :: rest, Resolves s (fun c => s.lookup r.collection = some c) (parsed.lookup r.field) := by
      rw [List.forall_mem_cons, exactly]
      refine (and_iff_right ?_).symm
      rcases unset with absent | isNull
      · exact .inl absent
      · exact .inr (.inl isNull)
    have refuse {e : Err} (wrong : ¬ Resolves s (fun c => s.lookup ref.collection = some c) (parsed.lookup ref.field)) :
        (Except.error e : Except Err Unit) = .ok () ↔
          ∀ r ∈ ref :: rest, Resolves s (fun c => s.lookup r.collection = some c) (parsed.lookup r.field) :=
      iff_of_false nofun fun all => wrong (all ref List.mem_cons_self)
    unfold validateEach
    cases value : parsed.lookup ref.field with
    | none => exact ⟨r, rests, skip (.inl value)⟩
    | some v =>
      cases v with
      | null => exact ⟨r, rests, skip (.inr value)⟩
      | int refID =>
        simp only [Prog.bind_eq]
        rw [Machine.eval_bind, Machine.eval_within, eval_getCollection]
        cases found : s.lookup ref.collection with
        | none =>
          refine ⟨_, rfl, refuse ?_⟩
          rw [value, resolves_int_iff]
          simp [found]
        | some target =>
          simp only [Option.elim_some, Except.mapError]
          rw [Machine.eval_bind, eval_read]
          have point : Resolves s (fun c => s.lookup ref.collection = some c) (parsed.lookup ref.field) ↔
              ∃ n, s.countById target.tableName refID = .ok n ∧ n ≠ 0 := by
            rw [value, resolves_int_iff]
            simp [found]
          cases counted : s.countById target.tableName refID with
          | error e =>
            refine ⟨_, rfl, refuse ?_⟩
            rw [point, counted]
            simp
          | ok n =>
            by_cases zero : n = 0
            · simp only [Except.mapError, if_pos zero]
              refine ⟨_, rfl, refuse ?_⟩
              rw [point, counted]
              simp [zero]
            · simp only [Except.mapError, if_neg zero]
              refine ⟨r, rests, ?_⟩
              rw [List.forall_mem_cons, exactly]
              exact (and_iff_right (point.mpr ⟨n, counted, zero⟩)).symm
      | bool _ | real _ | str _ | arr _ | obj _ =>
        refine ⟨_, rfl, refuse ?_⟩
        rw [value]
        simp [Resolves]

/-- validateReferences returns nil exactly when the data is acceptable. -/
theorem eval_validateReferences (name : String) (data : Option Json) :
    ∃ r, (machine h).eval (validateReferences name data) s = (r, s) ∧ (r = .ok () ↔ Accepts s name data) := by
  unfold validateReferences getReferences
  rw [Prog.bind_eq, Machine.eval_bind, eval_read]
  simp only [Except.mapError, List.isEmpty_iff, List.map_eq_nil_iff, h.visit_eq_nil]
  by_cases empty : s.owned name = []
  · rw [if_pos empty]
    exact ⟨.ok (), rfl, by simp [Accepts, empty]⟩
  · rw [if_neg empty]
    cases parse : unmarshalFields data with
    | error e => exact ⟨_, rfl, by simp [Accepts, empty, parse]⟩
    | ok parsed =>
      obtain ⟨r, evaluated, exactly⟩ := eval_validateEach (h := h) (s := s) parsed
        ((h.visit (s.owned name)).map fun r => ⟨r.fieldName, r.targetCollection, r.onDelete⟩)
      refine ⟨r, evaluated, ?_⟩
      rw [exactly]
      simp only [Accepts, empty, false_or, parse, Except.ok.injEq, exists_eq_left', List.forall_mem_map, Host.mem_visit]

theorem eval_validateReferences_ok_iff {name : String} {data : Option Json} {s' : DB} {a : Unit} :
    (machine h).eval (validateReferences name data) s = (.ok a, s') ↔ Accepts s name data ∧ s' = s := by
  obtain ⟨r, evaluated, exactly⟩ := eval_validateReferences (h := h) (s := s) name data
  rw [evaluated, Prod.mk.injEq, ← exactly, eq_comm (a := s)]

theorem eval_embed_ok_iff {context text : String} {s' : DB} {vec : Vector32} :
    (machine h).eval (embed context text) s = (.ok vec, s') ↔ h.embed text = .ok vec ∧ s' = s := by
  rw [eval_embed, Prod.mk.injEq, eq_comm (a := s)]
  cases h.embed text <;> simp [Except.mapError]

end Microserver.Evaluations
