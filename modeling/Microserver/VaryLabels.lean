import Microserver.CorsChain

/-!
Two requests that differ in one header only, Origin or Accept-Encoding, and whether
the replies to them say in Vary that they depend on it. The middleware adds to Vary on
some of its branches only, and what it adds the handler can write over.
-/
namespace Microserver.VaryLabels
open Microserver.ResponseWriters Microserver.Compression Microserver.CorsChain

/-! ### Edits of the headers -/

/-- The header loses what it had. -/
def overwrites (name : String) : Edit → Bool
  | .set other _ => other = name
  | .add _ _ => false
  | .del other => other = name

/-- One of the edits writes over a header. -/
abbrev Overwrites (es : List Edit) (name : String) : Prop := es.any (overwrites name) = true

/-- The headers of the edits alone. -/
def own (es : List Edit) : Header := es.foldl Edit.apply fun _ => []

theorem apply_eq (edit : Edit) (header : Header) (name : String) : edit.apply header name =
    if overwrites name edit then edit.apply (fun _ => []) name else header name ++ edit.apply (fun _ => []) name := by
  cases edit with
  | set other value =>
    by_cases same : name = other
    · simp [Edit.apply, Header.set, overwrites, same]
    · simp [Edit.apply, Header.set, overwrites, same, Ne.symm same]
  | add other value =>
    by_cases same : name = other
    · simp [Edit.apply, Header.add, overwrites, same]
    · simp [Edit.apply, Header.add, overwrites, same]
  | del other =>
    by_cases same : name = other
    · simp [Edit.apply, Header.del, overwrites, same]
    · simp [Edit.apply, Header.del, overwrites, same, Ne.symm same]

/-- A header keeps what it had unless the edits write over it. -/
theorem foldl_apply (es : List Edit) (header : Header) (name : String) : es.foldl Edit.apply header name =
    if Overwrites es name then own es name else header name ++ own es name := by
  unfold Overwrites own
  induction es generalizing header with
  | nil => simp
  | cons edit es ih =>
    rw [List.foldl_cons, List.foldl_cons, ih, ih (edit.apply fun _ => []), List.any_cons, apply_eq edit header]
    cases overwrites name edit <;> cases es.any (overwrites name) <;> simp

theorem overwrites_append (es es' : List Edit) (name : String) :
    Overwrites (es ++ es') name ↔ Overwrites es name ∨ Overwrites es' name := by
  simp [Overwrites]

theorem own_append (es es' : List Edit) (name : String) :
    own (es ++ es') name = if Overwrites es' name then own es' name else own es name ++ own es' name := by
  rw [← foldl_apply, own, List.foldl_append]
  rfl

/-! ### Vary -/

/-- Optional white space of a header. -/
def isSpace (c : Char) : Bool := c = ' ' || c = '\t'

/-- The names between the commas; upper and lower case are the same. -/
def fieldNames (value : String) : List (List Char) :=
  (value.toList.splitOn ',').map fun t => (((t.dropWhile isSpace).reverse.dropWhile isSpace).reverse).map Char.toLower

/-- Vary lists a name. -/
def lists (name : String) (vary : List String) : Bool := vary.any fun value => (fieldNames value).contains (name.toList.map Char.toLower)

example : lists "Accept-Encoding" ["Origin, accept-encoding"] = true := by decide

theorem lists_append (name : String) (vary vary' : List String) : lists name (vary ++ vary') = (lists name vary || lists name vary') :=
  List.any_append

/-- The replies differ in status, body or a header other than Vary. -/
def Differ (s s' : Reply) : Prop := s.status ≠ s'.status ∨ s.body ≠ s'.body ∨ ∃ name, name ≠ "Vary" ∧ s.header name ≠ s'.header name

/-- If they differ, both list the header in Vary. -/
def Labelled (name : String) (s s' : Reply) : Prop :=
  Differ s s' → lists name (s.header "Vary") = true ∧ lists name (s'.header "Vary") = true

theorem labelled_of_same {name : String} {s s' : Reply} (same : s = s') : Labelled name s s' := by
  rintro (status | body | ⟨other, -, header⟩)
  · exact absurd (congrArg Reply.status same) status
  · exact absurd (congrArg Reply.body same) body
  · exact absurd (congrArg (Reply.header · other) same) header

theorem Labelled.symm {name : String} {s s' : Reply} (labelled : Labelled name s s') : Labelled name s' s := by
  rintro differ
  have other : Differ s s' := by
    rcases differ with status | body | ⟨name, vary, header⟩
    · exact .inl (Ne.symm status)
    · exact .inr (.inl (Ne.symm body))
    · exact .inr (.inr ⟨name, vary, Ne.symm header⟩)
  exact (labelled other).symm

/-! ### What corsMiddleware does to the headers -/

variable {cfg : CORSConfig} {o o' : String}

/-- The headers with which what is behind it begins. -/
def corsHeader (cfg : CORSConfig) (origin : String) : Header := own (added cfg origin)

theorem corsHeader_origin (cfg : CORSConfig) (o : String) :
    corsHeader cfg o "Access-Control-Allow-Origin" = if cfg.allows o then [if cfg.AllowAll then "*" else o] else [] := by
  unfold corsHeader added own corsEdits
  cases cfg.allows o <;> cases cfg.AllowAll <;> simp [Edit.apply, Header.set]

theorem corsHeader_vary (cfg : CORSConfig) (o : String) :
    corsHeader cfg o "Vary" = if cfg.allows o && !cfg.AllowAll then ["Origin"] else [] := by
  unfold corsHeader added own corsEdits
  cases cfg.allows o <;> cases cfg.AllowAll <;> simp [Edit.apply, Header.set]

/-- The headers that are the same for all allowed origins. -/
def fixedNames : List String := ["Access-Control-Allow-Methods", "Access-Control-Allow-Headers", "Access-Control-Max-Age"]

theorem corsHeader_fixed (cfg : CORSConfig) (o : String) {name : String} (fixed : name ∈ fixedNames) :
    corsHeader cfg o name = [] ↔ cfg.allows o = false := by
  unfold corsHeader added own corsEdits
  simp only [fixedNames, List.mem_cons, List.not_mem_nil, or_false] at fixed
  rcases fixed with rfl | rfl | rfl <;> cases cfg.allows o <;> cases cfg.AllowAll <;> simp [Edit.apply, Header.set]

theorem corsHeader_same (allowed : cfg.allows o = cfg.allows o') {name : String} (origin : name ≠ "Access-Control-Allow-Origin") :
    corsHeader cfg o name = corsHeader cfg o' name := by
  unfold corsHeader added own corsEdits
  rw [allowed]
  cases cfg.allows o' <;> cases cfg.AllowAll <;> simp [Edit.apply, Header.set, origin]

theorem corsHeader_other (cfg : CORSConfig) (o : String) {name : String}
    (other : name ∉ "Access-Control-Allow-Origin" :: "Vary" :: fixedNames) : corsHeader cfg o name = [] := by
  simp only [fixedNames, List.mem_cons, List.not_mem_nil, or_false, not_or] at other
  obtain ⟨origin, vary, methods, headers, age⟩ := other
  unfold corsHeader added own corsEdits
  cases cfg.allows o <;> cases cfg.AllowAll <;> simp [Edit.apply, Header.set, origin, vary, methods, headers, age]

/-! ### Origin -/

/-- When the replies to two origins are labelled: the middleware treats them alike, or
    the handler lists Origin itself, or Vary has been set for both and the handler
    leaves it, or the handler writes over whatever differs. -/
def OriginFits (cfg : CORSConfig) (es : List Edit) (o o' : String) : Prop :=
  (cfg.allows o = cfg.allows o' ∧ (cfg.allows o = true → cfg.AllowAll = true ∨ o = o')) ∨
    lists "Origin" (own es "Vary") = true ∨
    (cfg.allows o = true ∧ cfg.allows o' = true ∧ cfg.AllowAll = false ∧ ¬ Overwrites es "Vary") ∨
    Overwrites es "Access-Control-Allow-Origin" ∧
      (cfg.allows o = cfg.allows o' ∨ ∀ name ∈ fixedNames, Overwrites es name)

/-- A reply whose headers began with those of corsMiddleware. -/
def begunWith (status : Status) (es : List Edit) (body : Bytes) (header : Header) : Reply := ⟨status, es.foldl Edit.apply header, body⟩

variable {es : List Edit} {status : Status} {body : Bytes}

theorem foldl_ne_iff (es : List Edit) (header header' : Header) (name : String) :
    es.foldl Edit.apply header name ≠ es.foldl Edit.apply header' name ↔ ¬ Overwrites es name ∧ header name ≠ header' name := by
  rw [foldl_apply, foldl_apply es header']
  split
  · rename_i overwritten
    exact iff_of_false (fun differ => differ rfl) fun both => both.1 overwritten
  · rename_i kept
    rw [Ne, List.append_left_inj]
    exact ⟨fun differ => ⟨kept, differ⟩, fun both => both.2⟩

theorem differ_origin (header header' : Header) : Differ (begunWith status es body header) (begunWith status es body header') ↔
    ∃ name, name ≠ "Vary" ∧ ¬ Overwrites es name ∧ header name ≠ header' name := by
  constructor
  · rintro (differ | differ | ⟨name, vary, differ⟩)
    · exact absurd rfl differ
    · exact absurd rfl differ
    · exact ⟨name, vary, (foldl_ne_iff es _ _ name).mp differ⟩
  · rintro ⟨name, vary, differ⟩
    exact .inr (.inr ⟨name, vary, (foldl_ne_iff es _ _ name).mpr differ⟩)

theorem lists_origin (cfg : CORSConfig) (o : String) (es : List Edit) :
    lists "Origin" (es.foldl Edit.apply (corsHeader cfg o) "Vary") = true ↔
      lists "Origin" (own es "Vary") = true ∨ ¬ Overwrites es "Vary" ∧ cfg.allows o = true ∧ cfg.AllowAll = false := by
  have origin : lists "Origin" ["Origin"] = true := by decide
  have none : lists "Origin" [] = false := rfl
  rw [foldl_apply, corsHeader_vary]
  by_cases overwritten : Overwrites es "Vary"
  · rw [if_pos overwritten]
    exact ⟨.inl, fun either => either.resolve_right fun kept => kept.1 overwritten⟩
  · rw [if_neg overwritten, lists_append]
    cases cfg.allows o <;> cases cfg.AllowAll <;> simp [overwritten, origin, none]

theorem corsHeader_origin_iff : corsHeader cfg o "Access-Control-Allow-Origin" = corsHeader cfg o' "Access-Control-Allow-Origin" ↔
    cfg.allows o = cfg.allows o' ∧ (cfg.allows o = true → cfg.AllowAll = true ∨ o = o') := by
  rw [corsHeader_origin, corsHeader_origin]
  cases cfg.allows o <;> cases cfg.allows o' <;> cases cfg.AllowAll <;> simp

theorem differ_names : (∃ name, name ≠ "Vary" ∧ ¬ Overwrites es name ∧ corsHeader cfg o name ≠ corsHeader cfg o' name) ↔
    ¬ ((cfg.allows o = cfg.allows o' ∧ (cfg.allows o = true → cfg.AllowAll = true ∨ o = o')) ∨
      Overwrites es "Access-Control-Allow-Origin" ∧ (cfg.allows o = cfg.allows o' ∨ ∀ name ∈ fixedNames, Overwrites es name)) := by
  rw [← corsHeader_origin_iff]
  constructor
  · rintro ⟨name, vary, kept, differ⟩ (same | ⟨overwritten, rest⟩)
    · have allowed := (corsHeader_origin_iff.mp same).1
      by_cases origin : name = "Access-Control-Allow-Origin"
      · exact differ (origin ▸ same)
      · exact differ (corsHeader_same allowed origin)
    · have origin : name ≠ "Access-Control-Allow-Origin" := by
        rintro rfl
        exact kept overwritten
      rcases rest with allowed | fixed
      · exact differ (corsHeader_same allowed origin)
      · by_cases listed : name ∈ "Access-Control-Allow-Origin" :: "Vary" :: fixedNames
        · have inside : name ∈ fixedNames := ((List.mem_cons.mp listed).resolve_left origin |> List.mem_cons.mp).resolve_left vary
          exact kept (fixed name inside)
        · exact differ (by rw [corsHeader_other cfg o listed, corsHeader_other cfg o' listed])
  · intro neither
    obtain ⟨differ, rest⟩ := not_or.mp neither
    by_cases overwritten : Overwrites es "Access-Control-Allow-Origin"
    · obtain ⟨allowed, fixed⟩ := not_or.mp fun either => rest ⟨overwritten, either⟩
      obtain ⟨name, missing⟩ := not_forall.mp fixed
      obtain ⟨listed, kept⟩ := Classical.not_imp.mp missing
      refine ⟨name, ?_, kept, fun same => allowed ?_⟩
      · rintro rfl
        exact absurd listed (by decide)
      · have one := corsHeader_fixed cfg o listed
        have other := corsHeader_fixed cfg o' listed
        rw [same, other] at one
        revert one
        cases cfg.allows o <;> cases cfg.allows o' <;> simp
    · exact ⟨"Access-Control-Allow-Origin", by decide, overwritten, differ⟩

theorem labelled_origin_iff :
    Labelled "Origin" (begunWith status es body (corsHeader cfg o)) (begunWith status es body (corsHeader cfg o')) ↔
      OriginFits cfg es o o' := by
  unfold Labelled OriginFits
  rw [differ_origin, differ_names]
  show (_ → lists "Origin" (es.foldl Edit.apply (corsHeader cfg o) "Vary") = true ∧
    lists "Origin" (es.foldl Edit.apply (corsHeader cfg o') "Vary") = true) ↔ _
  rw [lists_origin, lists_origin]
  tauto

/-! ### What the wrapper does to the headers -/

/-- After a status that is not final, what the handler does before gzip passes its
    first bytes on. -/
def late (G : Gzip) : G.State → List Action → List Edit
  | _, [] => []
  | state, .header edit :: rest => edit :: late G state rest
  | state, .writeHeader _ :: rest => late G state rest
  | state, .write b :: rest => if (G.write b state).1 = [] then late G (G.write b state).2 rest else []

/-- The handler's edits that reach the reply, compressed or not. -/
def reaching (G : Gzip) (gzip : Bool) (acts : List Action) : List Edit :=
  if gzip then
    (opening acts).1 ++ (opening acts).2.elim [] fun first => if informational first.1 then late G G.new first.2 else []
  else edits acts

theorem edits_headers (es : List Edit) (acts : List Action) : edits (es.map .header ++ acts) = es ++ edits acts := by
  induction es with
  | nil => rfl
  | cons edit es ih => exact congrArg (edit :: ·) ih

theorem finalStatus_headers (es : List Edit) (acts : List Action) : finalStatus (es.map .header ++ acts) = finalStatus acts := by
  induction es with
  | nil => rfl
  | cons edit es ih => exact ih

theorem writes_headers (es : List Edit) (acts : List Action) : writes (es.map .header ++ acts) = writes acts := by
  induction es with
  | nil => rfl
  | cons edit es ih => exact ih

theorem writes_append (acts acts' : List Action) : writes (acts ++ acts') = writes acts ++ writes acts' := List.filterMap_append

theorem writes_write (bs : List Bytes) : writes (bs.map .write) = bs := by
  induction bs with
  | nil => rfl
  | cons b bs ih => exact congrArg (b :: ·) ih

/-- A handler that neither writes nor calls WriteHeader. -/
theorem opening_none {acts : List Action} (opened : (opening acts).2 = none) : acts = (opening acts).1.map .header := by
  induction acts with
  | nil => rfl
  | cons action rest ih =>
    cases action with
    | header edit => exact congrArg (.header edit :: ·) (ih opened)
    | writeHeader status => cases opened
    | write b => cases opened

/-- What a handler asks for, by its first status. -/
theorem opening_some {acts rest : List Action} {status : Status} (opened : (opening acts).2 = some (status, rest)) :
    edits acts = (opening acts).1 ++ (if informational status then edits rest else []) ∧
      finalStatus acts = (if informational status then finalStatus rest else status) ∧ writes acts = writes rest := by
  induction acts with
  | nil => cases opened
  | cons action acts ih =>
    cases action with
    | header edit =>
      obtain ⟨es, final, ws⟩ := ih opened
      exact ⟨congrArg (edit :: ·) es, final, ws⟩
    | writeHeader status =>
      cases opened
      exact ⟨rfl, rfl, rfl⟩
    | write b =>
      cases opened
      exact ⟨rfl, rfl, rfl⟩

/-- Behind a status that is not final come headers, and 200 with the first bytes. -/
theorem forwarded_late (G : Gzip) (state : G.State) (acts : List Action) (bs : List Bytes) :
    edits (forwarded G state acts ++ bs.map .write) = late G state acts ∧
      finalStatus (forwarded G state acts ++ bs.map .write) = statusOK := by
  induction acts generalizing state with
  | nil => cases bs <;> exact ⟨rfl, rfl⟩
  | cons action rest ih =>
    cases action with
    | header edit => exact ⟨congrArg (edit :: ·) (ih state).1, (ih state).2⟩
    | writeHeader status => exact ih state
    | write b =>
      unfold forwarded late
      cases passed : (G.write b state).1 with
      | nil => exact ih _
      | cons chunk chunks => exact ⟨rfl, rfl⟩

theorem run_forwarded (G : Gzip) (acts : List Action) (passed : List Bytes) (state : G.State) :
    (writes acts).foldl (fun passed b => (passed.1 ++ (G.write b passed.2).1, (G.write b passed.2).2)) (passed, state) =
      (passed ++ writes (forwarded G state acts), packing G state (writes acts)) := by
  induction acts generalizing passed state with
  | nil => exact Prod.ext (List.append_nil passed).symm rfl
  | cons action rest ih =>
    cases action with
    | header edit => exact ih passed state
    | writeHeader status => exact ih passed state
    | write b =>
      refine (ih (passed ++ (G.write b state).1) (G.write b state).2).trans ?_
      rw [forwarded, writes_append, writes_write, List.append_assoc]
      rfl

/-- The text as the wrapper passes it on. -/
def stream (G : Gzip) (ws : List Bytes) : Bytes := if ws = [] then [] else G.stream ws

theorem stream_forwarded (G : Gzip) (acts : List Action) : (writes (forwarded G G.new acts ++
    if writes acts = [] then [] else (G.close (packing G G.new (writes acts))).map .write)).flatten = stream G (writes acts) := by
  have run : G.run (writes acts) = (writes (forwarded G G.new acts), packing G G.new (writes acts)) := run_forwarded G acts [] G.new
  unfold stream Gzip.stream
  rw [run, writes_append]
  by_cases none : writes acts = []
  · rw [none] at run ⊢
    have nothing : writes (forwarded G G.new acts) = [] := (congrArg Prod.fst run).symm
    rw [if_pos rfl, if_pos rfl, nothing]
    rfl
  · rw [if_neg none, if_neg none, writes_write]

theorem skips_final {status : Status} (skip : GzipResponseWriter.skips status = true) : informational status = false := by
  unfold GzipResponseWriter.skips at skip
  unfold informational
  have final := of_decide_eq_true skip
  exact decide_eq_false (by omega)

theorem writes_skipped (acts : List Action) : writes (skipped acts) = writes acts := by
  induction acts with
  | nil => rfl
  | cons action rest ih =>
    cases action with
    | header edit => exact ih
    | writeHeader status => exact ih
    | write b => exact congrArg (b :: ·) ih

section Gzipped
variable {G : Gzip} {acts rest : List Action}

theorem gzipped_none (opened : (opening acts).2 = none) : gzipped G acts = acts := by
  unfold gzipped
  rw [opened]
  exact (List.append_nil _).trans (opening_none opened).symm

theorem gzipped_skips (opened : (opening acts).2 = some (status, rest)) (skip : GzipResponseWriter.skips status = true) :
    edits (gzipped G acts) = edits acts ∧ finalStatus (gzipped G acts) = finalStatus acts ∧ writes (gzipped G acts) = writes acts := by
  obtain ⟨es, final, ws⟩ := opening_some opened
  unfold gzipped
  rw [opened, es, final, ws, edits_headers, finalStatus_headers, writes_headers, skips_final skip]
  simp only [Option.elim, skip, if_true, edits, finalStatus, skips_final skip, Bool.false_eq_true, if_false]
  exact ⟨trivial, trivial, writes_skipped rest⟩

/-- What the wrapper makes of a response that it marks. -/
theorem gzipped_marked (opened : (opening acts).2 = some (status, rest)) (body : GzipResponseWriter.skips status = false) :
    edits (gzipped G acts) = (opening acts).1 ++ (marks ++ if informational status then late G G.new rest else []) ∧
      finalStatus (gzipped G acts) = (if informational status then statusOK else status) ∧
      (writes (gzipped G acts)).flatten = stream G (writes acts) := by
  have chunks : ∃ bs : List Bytes, (if writes rest = [] then [] else (G.close (packing G G.new (writes rest))).map Action.write) =
      bs.map .write := by
    by_cases none : writes rest = []
    · exact ⟨[], if_pos none⟩
    · exact ⟨_, if_neg none⟩
  obtain ⟨bs, same⟩ := chunks
  have text := stream_forwarded G rest
  obtain ⟨es, final⟩ := forwarded_late G G.new rest bs
  unfold gzipped
  rw [opened, (opening_some opened).2.2]
  simp only [Option.elim, body, Bool.false_eq_true, if_false]
  rw [same] at text ⊢
  rw [edits_headers, finalStatus_headers, writes_headers, List.append_assoc, edits_headers, finalStatus_headers, writes_headers]
  show _ ++ (_ ++ edits (.writeHeader status :: (forwarded G G.new rest ++ bs.map .write))) = _ ∧
    finalStatus (.writeHeader status :: (forwarded G G.new rest ++ bs.map .write)) = _ ∧ _
  unfold edits finalStatus
  rw [es, final]
  exact ⟨rfl, rfl, text⟩

end Gzipped

/-! ### Marks and Origin -/

section Marks
variable {before after : List Edit}

theorem overwrites_marks (name : String) (other : name ≠ "Content-Encoding") :
    Overwrites (before ++ (marks ++ after)) name ↔ Overwrites (before ++ after) name := by
  have kept : ¬ Overwrites marks name := by simp [Overwrites, marks, overwrites, Ne.symm other]
  rw [overwrites_append, overwrites_append, overwrites_append, or_iff_right kept]

theorem own_marks : own (marks ++ after) "Vary" =
    if Overwrites after "Vary" then own after "Vary" else ["Accept-Encoding"] ++ own after "Vary" :=
  own_append marks after "Vary"

theorem lists_marks : lists "Origin" (own (before ++ (marks ++ after)) "Vary") = lists "Origin" (own (before ++ after) "Vary") := by
  have encoding : lists "Origin" ["Accept-Encoding"] = false := by decide
  have unmarked : ¬ Overwrites marks "Vary" := by decide
  have kept : Overwrites (marks ++ after) "Vary" ↔ Overwrites after "Vary" := by rw [overwrites_append, or_iff_right unmarked]
  rw [own_append, own_append before, own_marks]
  by_cases overwritten : Overwrites after "Vary"
  · rw [if_pos (kept.mpr overwritten), if_pos overwritten, if_pos overwritten]
  · rw [if_neg (overwritten ∘ kept.mp), if_neg overwritten, if_neg overwritten, lists_append, lists_append,
      lists_append, encoding, Bool.false_or]

theorem originFits_marks : OriginFits cfg (before ++ (marks ++ after)) o o' ↔ OriginFits cfg (before ++ after) o o' := by
  have fixed : (∀ name ∈ fixedNames, Overwrites (before ++ (marks ++ after)) name) ↔
      ∀ name ∈ fixedNames, Overwrites (before ++ after) name :=
    forall₂_congr fun name listed => overwrites_marks name (by rintro rfl; exact absurd listed (by decide))
  unfold OriginFits
  rw [lists_marks, overwrites_marks "Vary" (by decide), overwrites_marks "Access-Control-Allow-Origin" (by decide),
    fixed]

end Marks

/-- What the wrapper adds does not matter to Origin. -/
theorem originFits_packed (G : Gzip) (gzip : Bool) (acts : List Action) :
    OriginFits cfg (edits (packed G gzip acts)) o o' ↔ OriginFits cfg (reaching G gzip acts) o o' := by
  cases gzip with
  | false => exact Iff.rfl
  | true =>
    show OriginFits cfg (edits (gzipped G acts)) o o' ↔ _
    unfold reaching
    rw [if_pos rfl]
    cases opened : (opening acts).2 with
    | none =>
      have same : edits acts = (opening acts).1 := by
        conv_lhs => rw [opening_none opened, ← List.append_nil ((opening acts).1.map _), edits_headers]
        exact List.append_nil _
      rw [gzipped_none opened, same]
      exact (Eq.to_iff (by rw [Option.elim, List.append_nil]))
    | some first =>
      obtain ⟨status, rest⟩ := first
      dsimp only [Option.elim]
      cases skip : GzipResponseWriter.skips status with
      | true =>
        rw [(gzipped_skips opened skip).1, (opening_some opened).1, skips_final skip]
        exact Iff.rfl
      | false =>
        rw [(gzipped_marked opened skip).1]
        exact originFits_marks

/-! ### Accept-Encoding -/

/-- Behind a status that is not final: the handler lists Accept-Encoding itself before
    its final status and does not drop it before the first bytes, or the two replies
    are the same. -/
def InterimFits (G : Gzip) (header : Header) (before : List Edit) (rest : List Action) : Prop :=
  (lists "Accept-Encoding" (own (before ++ edits rest) "Vary") = true ∧
    (Overwrites (late G G.new rest) "Vary" → lists "Accept-Encoding" (own (late G G.new rest) "Vary") = true)) ∨
  finalStatus rest = statusOK ∧ stream G (writes rest) = (writes rest).flatten ∧ ∀ name, name ≠ "Vary" →
    (before ++ (marks ++ late G G.new rest)).foldl Edit.apply header name = (before ++ edits rest).foldl Edit.apply header name

/-- When the replies with and without compression are labelled: nothing is marked as
    gzip, or the handler lists Accept-Encoding itself, or it marks the response as
    gzip itself and the text is its own stream. -/
def EncodingFits (G : Gzip) (header : Header) (acts : List Action) : Prop :=
  ∀ status rest, (opening acts).2 = some (status, rest) → GzipResponseWriter.skips status = false →
    if informational status then InterimFits G header (opening acts).1 rest
    else lists "Accept-Encoding" (own (opening acts).1 "Vary") = true ∨
      own (opening acts).1 "Content-Encoding" = ["gzip"] ∧ stream G (writes rest) = (writes rest).flatten

theorem lists_encoding (es : List Edit) (cfg : CORSConfig) (o : String) :
    lists "Accept-Encoding" (es.foldl Edit.apply (corsHeader cfg o) "Vary") = lists "Accept-Encoding" (own es "Vary") := by
  have origin : lists "Accept-Encoding" ["Origin"] = false := by decide
  have none : lists "Accept-Encoding" [] = false := rfl
  rw [foldl_apply, corsHeader_vary]
  split
  · rfl
  · rw [lists_append]
    split <;> simp [origin, none]

/-- A marked reply lists Accept-Encoding unless the handler drops it afterwards. -/
theorem lists_marked (before after : List Edit) : lists "Accept-Encoding" (own (before ++ (marks ++ after)) "Vary") = true ↔
    (Overwrites after "Vary" → lists "Accept-Encoding" (own after "Vary") = true) := by
  have listed : lists "Accept-Encoding" ["Accept-Encoding"] = true := by decide
  have unmarked : ¬ Overwrites marks "Vary" := by decide
  have kept : Overwrites (marks ++ after) "Vary" ↔ Overwrites after "Vary" := by rw [overwrites_append, or_iff_right unmarked]
  rw [own_append, own_marks]
  by_cases overwritten : Overwrites after "Vary"
  · rw [if_pos (kept.mpr overwritten), if_pos overwritten]
    exact ⟨fun lists _ => lists, fun lists => lists overwritten⟩
  · rw [if_neg (overwritten ∘ kept.mp), if_neg overwritten, lists_append, lists_append, listed]
    simp [overwritten]

theorem differ_iff {s s' : Reply} :
    Differ s s' ↔ ¬ (s.status = s'.status ∧ s.body = s'.body ∧ ∀ name, name ≠ "Vary" → s.header name = s'.header name) := by
  unfold Differ
  rw [not_and_or, not_and_or, not_forall]
  simp only [Classical.not_imp]

/-- The marks alone differ in Content-Encoding. -/
theorem marked_same_iff (before : List Edit) (cfg : CORSConfig) (o : String) :
    (∀ name, name ≠ "Vary" → (before ++ marks).foldl Edit.apply (corsHeader cfg o) name =
      before.foldl Edit.apply (corsHeader cfg o) name) ↔ own before "Content-Encoding" = ["gzip"] := by
  have marked (header : Header) (name : String) (vary : name ≠ "Vary") : marks.foldl Edit.apply header name =
      if name = "Content-Encoding" then ["gzip"] else header name := by
    simp [marks, Edit.apply, Header.set, Header.add, vary]
  have plain : before.foldl Edit.apply (corsHeader cfg o) "Content-Encoding" = own before "Content-Encoding" := by
    rw [foldl_apply, corsHeader_other cfg o (by decide)]
    split <;> rfl
  simp only [List.foldl_append]
  constructor
  · intro same
    have encoding := same "Content-Encoding" (by decide)
    rw [marked _ _ (by decide), if_pos rfl, plain] at encoding
    exact encoding.symm
  · intro gzip name vary
    rw [marked _ _ vary]
    split
    · rename_i encoding
      rw [encoding, plain, gzip]
    · rfl

/-- One reply is compressed, the other one is not. -/
theorem labelled_encoding_iff (G : Gzip) (cfg : CORSConfig) (o : String) (acts : List Action) :
    Labelled "Accept-Encoding"
      (begunWith (finalStatus (gzipped G acts)) (edits (gzipped G acts)) (writes (gzipped G acts)).flatten (corsHeader cfg o))
      (begunWith (finalStatus acts) (edits acts) (writes acts).flatten (corsHeader cfg o)) ↔
      EncodingFits G (corsHeader cfg o) acts := by
  unfold EncodingFits
  cases opened : (opening acts).2 with
  | none =>
    rw [gzipped_none opened]
    exact iff_of_true (labelled_of_same rfl) fun status rest same => by cases same
  | some first =>
    obtain ⟨status, rest⟩ := first
    cases skip : GzipResponseWriter.skips status with
    | true =>
      obtain ⟨es, final, ws⟩ := gzipped_skips (G := G) opened skip
      rw [es, final, ws]
      refine iff_of_true (labelled_of_same rfl) fun status' rest' same body => ?_
      cases same
      rw [skip] at body
      cases body
    | false =>
      have only (P : Status → List Action → Prop) : (∀ status' rest', some (status, rest) = some (status', rest') →
          GzipResponseWriter.skips status' = false → P status' rest') ↔ P status rest := by
        refine ⟨fun all => all status rest rfl skip, fun holds status' rest' same _ => ?_⟩
        cases same
        exact holds
      obtain ⟨es, final, text⟩ := gzipped_marked (G := G) opened skip
      obtain ⟨es', final', text'⟩ := opening_some opened
      rw [only, Labelled, differ_iff]
      show (¬ (finalStatus (gzipped G acts) = finalStatus acts ∧ (writes (gzipped G acts)).flatten = (writes acts).flatten ∧
          ∀ name, name ≠ "Vary" → (edits (gzipped G acts)).foldl Edit.apply (corsHeader cfg o) name =
            (edits acts).foldl Edit.apply (corsHeader cfg o) name) →
        lists "Accept-Encoding" ((edits (gzipped G acts)).foldl Edit.apply (corsHeader cfg o) "Vary") = true ∧
          lists "Accept-Encoding" ((edits acts).foldl Edit.apply (corsHeader cfg o) "Vary") = true) ↔ _
      rw [lists_encoding, lists_encoding, es, es', final, final', text, text', lists_marked]
      cases informational status with
      | true =>
        simp only [if_true]
        unfold InterimFits
        rw [eq_comm (a := statusOK)]
        tauto
      | false =>
        simp only [Bool.false_eq_true, if_false, List.append_nil]
        have kept : ¬ Overwrites [] "Vary" := by decide
        rw [marked_same_iff]
        tauto

/-! ### Two requests -/

/-- The header in which the requests differ. -/
inductive Varied
  | origin
  | acceptEncoding

def Varied.name : Varied → String
  | .origin => "Origin"
  | .acceptEncoding => "Accept-Encoding"

section Requests
variable {ρ : Type}

/-- The requests differ in this header only. -/
def OnlyIn : Varied → Request ρ → Request ρ → Prop
  | .origin, r, r' => ∃ origin, r' = { r with origin := origin }
  | .acceptEncoding, r, r' => ∃ acceptEncoding, r' = { r with acceptEncoding := acceptEncoding }

/-- The handler does not look at either header. -/
def Ignores (next : Request ρ → List Action) : Prop :=
  ∀ r origin acceptEncoding, next { r with origin := origin, acceptEncoding := acceptEncoding } = next r

/-- When the replies are labelled. -/
def Fits (G : Gzip) (cfg : CORSConfig) (next : Request ρ → List Action) : Varied → Request ρ → Request ρ → Prop
  | .origin, r, r' => OriginFits cfg (reaching G (contains r.acceptEncoding "gzip") (actions cfg next r)) r.origin r'.origin
  | .acceptEncoding, r, r' =>
    contains r.acceptEncoding "gzip" = contains r'.acceptEncoding "gzip" ∨
      EncodingFits G (corsHeader cfg r.origin) (actions cfg next r)

variable {next : Request ρ → List Action} {r r' : Request ρ}

theorem actions_congr (ignores : Ignores next) (r : Request ρ) (origin acceptEncoding : String) :
    actions cfg next { r with origin := origin, acceptEncoding := acceptEncoding } = actions cfg next r := by
  unfold actions
  rw [ignores]

/-- What the chain asks for. -/
theorem reply_handle (G : Gzip) (cfg : CORSConfig) (next : Request ρ → List Action) (r : Request ρ) :
    reply (handle G cfg next r) =
      begunWith (finalStatus (packed G (contains r.acceptEncoding "gzip") (actions cfg next r)))
        (edits (packed G (contains r.acceptEncoding "gzip") (actions cfg next r)))
        (writes (packed G (contains r.acceptEncoding "gzip") (actions cfg next r))).flatten (corsHeader cfg r.origin) := by
  rw [handle_eq]
  unfold reply begunWith corsHeader own
  rw [edits_headers, finalStatus_headers, writes_headers, List.foldl_append]

/-- Replies that differ are labelled exactly when the requests and the handler fit. -/
theorem labelled_iff (G : Gzip) (cfg : CORSConfig) {next : Request ρ → List Action} (ignores : Ignores next) {H : Varied}
    {r r' : Request ρ} (only : OnlyIn H r r') :
    Labelled H.name (reply (handle G cfg next r)) (reply (handle G cfg next r')) ↔ Fits G cfg next H r r' := by
  rw [reply_handle, reply_handle]
  cases H with
  | origin =>
    obtain ⟨origin, rfl⟩ := only
    have same : actions cfg next { r with origin := origin } = actions cfg next r := actions_congr ignores r origin r.acceptEncoding
    rw [same]
    exact labelled_origin_iff.trans (originFits_packed G _ _)
  | acceptEncoding =>
    obtain ⟨acceptEncoding, rfl⟩ := only
    have same : actions cfg next { r with acceptEncoding := acceptEncoding } = actions cfg next r :=
      actions_congr ignores r r.origin acceptEncoding
    rw [same]
    unfold Fits
    dsimp only
    cases contains r.acceptEncoding "gzip" <;> cases contains acceptEncoding "gzip"
    · exact iff_of_true (labelled_of_same rfl) (.inl rfl)
    · rw [or_iff_right Bool.false_ne_true]
      exact ⟨fun labelled => (labelled_encoding_iff G cfg r.origin _).mp labelled.symm,
        fun fits => ((labelled_encoding_iff G cfg r.origin _).mpr fits).symm⟩
    · rw [or_iff_right (Ne.symm Bool.false_ne_true)]
      exact labelled_encoding_iff G cfg r.origin _
    · exact iff_of_true (labelled_of_same rfl) (.inl rfl)

end Requests

/-- A handler that writes a text. -/
def greet : Request Unit → List Action := fun _ => [.header (.set "Content-Type" "text/plain"), .writeHeader statusOK, .write hello]

def listed : CORSConfig := ⟨true, false, ["https://app.example.com", "https://admin.example.com"]⟩

/-- Two origins of the configuration. -/
theorem labelled_two_origins :
    Labelled "Origin" (reply (handle helloGzip listed greet ⟨"GET", "https://app.example.com", "gzip", ()⟩))
      (reply (handle helloGzip listed greet ⟨"GET", "https://admin.example.com", "gzip", ()⟩)) :=
  (labelled_iff helloGzip listed (fun _ _ _ => rfl) (H := .origin) ⟨_, rfl⟩).mpr
    (.inr (.inr (.inl ⟨by decide, by decide, rfl, by decide⟩)))

/-- A text that a cache has from a client without compression. -/
theorem not_labelled : ¬ ∀ (G : Gzip), G.Sound → ∀ (cfg : CORSConfig) (next : Request Unit → List Action), Ignores next →
    ∀ (H : Varied) (r r' : Request Unit), OnlyIn H r r' →
      Labelled H.name (reply (handle G cfg next r)) (reply (handle G cfg next r')) := by
  intro all
  have labelled := all helloGzip helloGzip_sound ⟨false, false, []⟩ greet (fun _ _ _ => rfl) .acceptEncoding
    ⟨"GET", "", "gzip", ()⟩ ⟨"GET", "", "", ()⟩ ⟨"", rfl⟩
  have differ : Differ (reply (handle helloGzip ⟨false, false, []⟩ greet ⟨"GET", "", "gzip", ()⟩))
      (reply (handle helloGzip ⟨false, false, []⟩ greet ⟨"GET", "", "", ()⟩)) :=
    .inr (.inr ⟨"Content-Encoding", by decide, by decide⟩)
  exact absurd (labelled differ).2 (by decide)

end Microserver.VaryLabels
