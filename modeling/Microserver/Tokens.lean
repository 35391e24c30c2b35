import Mathlib.Data.List.TakeWhile
import Microserver.Base64
import Microserver.Quoting
import Microserver.Users

/-!
Bearer tokens: what generateToken signs and what validateToken accepts. A token
is a payload and its signature, both in base64; the payload is the username, the
role and the expiry with colons between them. Signatures are taken as ideal: a
token is `Unforged` when a signature in it that verifies was made by
generateToken.
-/
namespace Microserver.Tokens
open Microserver.Base64 Microserver.Quoting Microserver.Store Microserver.Users

/-! ### Strings and numbers -/

/-- `[]byte(s)`. -/
def bytesOf (s : String) : Bytes := s.toList.flatMap String.utf8EncodeChar

/-- `string(bytes)`; bytes that are no UTF-8 stand for no text. -/
def stringOf (bytes : Bytes) : String := (String.fromUTF8? bytes.toByteArray).getD "\uFFFD"

theorem toByteArray_bytesOf (s : String) : (bytesOf s).toByteArray = s.toByteArray := by
  conv_rhs => rw [← String.ofList_toList (s := s)]
  rw [String.toByteArray_ofList]
  rfl

@[simp] theorem stringOf_bytesOf (s : String) : stringOf (bytesOf s) = s := by
  unfold stringOf
  rw [toByteArray_bytesOf]
  simp [String.fromUTF8?, s.isValidUTF8, String.fromUTF8]

theorem bytesOf_injective {s t : String} (same : bytesOf s = bytesOf t) : s = t := by
  rw [← stringOf_bytesOf s, same, stringOf_bytesOf]

@[simp] theorem bytesOf_append (s t : String) : bytesOf (s ++ t) = bytesOf s ++ bytesOf t := by simp [bytesOf]

/-- The byte of the colon. -/
def colon : UInt8 := 58

theorem colon_mem_utf8EncodeChar {c : Char} (member : colon ∈ String.utf8EncodeChar c) : c = ':' :=
  Char.toNat_inj.mp (mem_utf8EncodeChar member (by decide))

/-- The byte of the colon stands for the colon only. -/
theorem colon_not_mem_bytesOf {s : String} (absent : ':' ∉ s.toList) : colon ∉ bytesOf s := by
  intro member
  obtain ⟨c, listed, encoded⟩ := List.mem_flatMap.mp member
  exact absent (colon_mem_utf8EncodeChar encoded ▸ listed)

/-- An int64. -/
def InInt64 (n : Int) : Prop := -9223372036854775808 ≤ n ∧ n ≤ 9223372036854775807

instance (n : Int) : Decidable (InInt64 n) := inferInstanceAs (Decidable (_ ∧ _))

/-- The digits of `strconv.ParseUint`. -/
def parseDigits (digits : List Char) : Option Nat :=
  if digits = [] ∨ ¬ digits.all Char.isDigit then none else some (Nat.ofDigitChars 10 digits 0)

/-- `strconv.ParseInt(s, 10, 64)`. -/
def parseInt (s : String) : Option Int :=
  let inRange (n : Int) : Option Int := if InInt64 n then some n else none
  match s.toList with
  | '-' :: digits => (parseDigits digits).bind fun n => inRange (-n)
  | '+' :: digits => (parseDigits digits).bind fun n => inRange n
  | digits => (parseDigits digits).bind fun n => inRange n

theorem parseDigits_toDigits (n : Nat) : parseDigits (Nat.toDigits 10 n) = some n := by
  have digits : (Nat.toDigits 10 n).all Char.isDigit = true :=
    List.all_eq_true.mpr fun c member => Nat.isDigit_of_mem_toDigits (by decide) (by decide) member
  simp [parseDigits, Nat.toDigits_ne_nil, digits, Nat.ofDigitChars_ten_toDigits]

theorem toList_toString_neg {n : Int} (negative : n < 0) : (toString n).toList = '-' :: Nat.toDigits 10 (-n).toNat := by
  rw [Int.toString_eq_repr, Int.repr_eq_if, if_neg (by omega), String.toList_append, Nat.toList_repr]
  rfl

theorem toList_toString_nonneg {n : Int} (nonnegative : 0 ≤ n) : (toString n).toList = Nat.toDigits 10 n.toNat := by
  rw [Int.toString_eq_repr, Int.repr_eq_if, if_pos nonnegative, Nat.toList_repr]

/-- `%d` prints what ParseInt reads. -/
theorem parseInt_toString {n : Int} (fits : InInt64 n) : parseInt (toString n) = some n := by
  unfold parseInt
  by_cases negative : n < 0
  · rw [toList_toString_neg negative]
    have value : (-((-n).toNat : Int)) = n := by omega
    simp only [parseDigits_toDigits, Option.bind_some, value]
    exact if_pos fits
  · rw [toList_toString_nonneg (by omega)]
    have value : (n.toNat : Int) = n := by omega
    have digits : ∀ c ∈ Nat.toDigits 10 n.toNat, c.isDigit = true := fun c member =>
      Nat.isDigit_of_mem_toDigits (by decide) (by decide) member
    split
    · rename_i rest same
      have impossible := digits '-' (same ▸ List.mem_cons_self)
      simp at impossible
    · rename_i rest same
      have impossible := digits '+' (same ▸ List.mem_cons_self)
      simp at impossible
    · simp only [parseDigits_toDigits, Option.bind_some, value]
      exact if_pos fits

/-- The texts of numbers have a sign and digits. -/
theorem mem_toString {c : Char} {n : Int} (member : c ∈ (toString n).toList) : c = '-' ∨ c.isDigit = true := by
  by_cases negative : n < 0
  · rw [toList_toString_neg negative] at member
    refine (List.mem_cons.mp member).imp id fun digit => ?_
    exact Nat.isDigit_of_mem_toDigits (by decide) (by decide) digit
  · rw [toList_toString_nonneg (by omega)] at member
    exact .inr (Nat.isDigit_of_mem_toDigits (by decide) (by decide) member)

theorem colon_not_mem_toString (n : Int) : ':' ∉ (toString n).toList := by
  intro member
  rcases mem_toString member with same | digit
  · exact absurd same (by decide)
  · exact absurd digit (by decide)

/-! ### The code -/

/-- The signing secret, by the HMAC-SHA256 under it, and the lifetime of tokens
    in nanoseconds. -/
structure AuthConfig where
  sign : Bytes → Bytes
  TTL : Int

/-- `t.Unix()` for a time in nanoseconds: seconds, as an int64. -/
def unix (t : Int) : Int := (t / 1000000000).bmod (2 ^ 64)

/-- `fmt.Sprintf("%s:%s:%d", username, role, expiry)`. -/
def payload (username role : String) (expiry : Int) : String := username ++ ":" ++ role ++ ":" ++ toString expiry

/-- `now` is the reading of the clock. -/
def generateToken (cfg : AuthConfig) (now : Int) (username role : String) : String :=
  let payload := bytesOf (payload username role (unix (now + cfg.TTL)))
  String.ofList (encodeToString payload ++ '.' :: encodeToString (cfg.sign payload))

/-- `strings.SplitN(s, ".", 2)`, when there are two parts. -/
def splitDot (text : List Char) : Option (List Char × List Char) :=
  match text.dropWhile (· != '.') with
  | [] => none
  | _ :: after => some (text.takeWhile (· != '.'), after)

def validateToken (cfg : AuthConfig) (now : Int) (token : String) : Except String (String × String) :=
  match splitDot token.toList with
  | none => .error "malformed token"
  | some (first, second) =>
    match decodeString first with
    | none => .error "malformed token"
    | some payloadBytes =>
      match decodeString second with
      | none => .error "malformed token"
      | some sigBytes =>
        if sigBytes ≠ cfg.sign payloadBytes then .error "invalid token signature"
        else
          match (payloadBytes.splitOn colon).map stringOf with
          | [username, role, field] =>
            match parseInt field with
            | none => .error "malformed token expiry"
            | some expiry => if unix now > expiry then .error "token expired" else .ok (username, role)
          | _ => .error "malformed token payload"

/-! ### Splitting -/

theorem takeWhile_dropWhile_dot {first : List Char} (after : List Char) (absent : '.' ∉ first) :
    (first ++ '.' :: after).takeWhile (· != '.') = first ∧ (first ++ '.' :: after).dropWhile (· != '.') = '.' :: after := by
  induction first with
  | nil => simp
  | cons c rest ih =>
    obtain ⟨different, later⟩ := not_or.mp (fun either => absent (List.mem_cons.mpr either))
    obtain ⟨taken, dropped⟩ := ih later
    have passes : (c != '.') = true := bne_iff_ne.mpr fun same => different same.symm
    simp [passes, taken, dropped]

theorem splitDot_iff {text first second : List Char} :
    splitDot text = some (first, second) ↔ text = first ++ '.' :: second ∧ '.' ∉ first := by
  constructor
  · intro found
    unfold splitDot at found
    cases rest : text.dropWhile (· != '.') with
    | nil => simp [rest] at found
    | cons c after =>
      simp only [rest, Option.some.injEq, Prod.mk.injEq] at found
      obtain ⟨rfl, rfl⟩ := found
      have dot : c = '.' := by
        have stops := List.head?_dropWhile_not (· != '.') text
        simpa [rest] using stops
      refine ⟨?_, fun member => ?_⟩
      · rw [dot] at rest
        rw [← rest, List.takeWhile_append_dropWhile]
      · simpa using List.mem_takeWhile_imp member
  · rintro ⟨rfl, absent⟩
    obtain ⟨taken, dropped⟩ := takeWhile_dropWhile_dot second absent
    simp only [splitDot, taken, dropped]

theorem colon_not_mem_name {name : String} (valid : collectionNameRe name = true) : ':' ∉ name.toList := by
  intro member
  unfold collectionNameRe at valid
  cases chars : name.toList with
  | nil => simp [chars] at member
  | cons c rest =>
    simp only [chars, Bool.and_eq_true, List.all_eq_true] at valid
    rw [chars] at member
    rcases List.mem_cons.mp member with rfl | later
    · exact absurd valid.1.1 (by decide)
    · exact absurd (valid.2 ':' later) (by decide)

theorem colon_not_mem_role {role : String} (valid : validRole role = true) : ':' ∉ role.toList := by
  simp only [validRole, Bool.or_eq_true, decide_eq_true_eq] at valid
  rcases valid with rfl | rfl <;> decide

/-- The colons separate the three fields of a payload. -/
theorem splitOn_payload {username role : String} (expiry : Int) (first : ':' ∉ username.toList) (second : ':' ∉ role.toList) :
    ((bytesOf (payload username role expiry)).splitOn colon).map stringOf = [username, role, toString expiry] := by
  have bytes : bytesOf (payload username role expiry) =
      bytesOf username ++ colon :: (bytesOf role ++ colon :: bytesOf (toString expiry)) := by
    have separator : bytesOf ":" = [colon] := by decide
    simp [payload, separator]
  rw [bytes, List.splitOn_append_cons_self, List.splitOn_append_cons_self,
    List.splitOn_eq_singleton (colon_not_mem_bytesOf first), List.splitOn_eq_singleton (colon_not_mem_bytesOf second),
    List.splitOn_eq_singleton (colon_not_mem_bytesOf (colon_not_mem_toString expiry))]
  simp

theorem unix_fits (t : Int) : InInt64 (unix t) := by
  have low := Int.le_bmod (x := t / 1000000000) (m := 2 ^ 64) (by decide)
  have high := Int.bmod_lt (x := t / 1000000000) (m := 2 ^ 64) (by decide)
  unfold InInt64 unix
  omega

/-! ### Tokens that were issued -/

/-- A call of generateToken: its arguments, the clock it reads and the lifetime
    that is set. -/
structure Issue where
  username : String
  role : String
  now : Int
  TTL : Int

def Issue.expiry (c : Issue) : Int := unix (c.now + c.TTL)

/-- What the call signs. -/
def Issue.payload (c : Issue) : Bytes := bytesOf (Tokens.payload c.username c.role c.expiry)

/-- What the call returns. -/
def Issue.token (cfg : AuthConfig) (c : Issue) : String :=
  generateToken { cfg with TTL := c.TTL } c.now c.username c.role

/-- The arguments that the handlers pass: the name and the role of a user. -/
def Issue.Valid (c : Issue) : Prop := collectionNameRe c.username = true ∧ validRole c.role = true

/-- The token splits at its first dot into texts that decode to the payload and
    to the signature. -/
def Presents (token : String) (payload signature : Bytes) : Prop :=
  ∃ first second, token.toList = first ++ '.' :: second ∧ '.' ∉ first ∧
    decodeString first = some payload ∧ decodeString second = some signature

/-- A signature in the token that verifies was made for one of the calls. -/
def Unforged (cfg : AuthConfig) (issued : Set Issue) (token : String) : Prop :=
  ∀ payload, Presents token payload (cfg.sign payload) → ∃ c ∈ issued, c.payload = payload

/-- A token is decoded in one way. -/
theorem Presents.unique {token : String} {payload payload' signature signature' : Bytes}
    (left : Presents token payload signature) (right : Presents token payload' signature') :
    payload = payload' ∧ signature = signature' := by
  obtain ⟨first, second, text, absent, decoded, decoded'⟩ := left
  obtain ⟨first', second', text', absent', again, again'⟩ := right
  have split := splitDot_iff.mpr ⟨text, absent⟩
  rw [splitDot_iff.mpr ⟨text', absent'⟩] at split
  simp only [Option.some.injEq, Prod.mk.injEq] at split
  obtain ⟨rfl, rfl⟩ := split
  exact ⟨Option.some.inj (decoded.symm.trans again), Option.some.inj (decoded'.symm.trans again')⟩

/-- validateToken accepts exactly signed payloads of three fields whose expiry
    has not passed. -/
theorem validateToken_ok_iff {cfg : AuthConfig} {now : Int} {token username role : String} :
    validateToken cfg now token = .ok (username, role) ↔
      ∃ payload, Presents token payload (cfg.sign payload) ∧
        ∃ field expiry, (payload.splitOn colon).map stringOf = [username, role, field] ∧
          parseInt field = some expiry ∧ unix now ≤ expiry := by
  constructor
  · intro accepted
    unfold validateToken at accepted
    split at accepted
    · cases accepted
    · rename_i first second split'
      split at accepted
      · cases accepted
      · rename_i payload decoded
        split at accepted
        · cases accepted
        · rename_i signature decoded'
          obtain ⟨text, absent⟩ := splitDot_iff.mp split'
          split at accepted
          · cases accepted
          · rename_i verified
            rw [not_not.mp verified] at decoded'
            refine ⟨payload, ⟨first, second, text, absent, decoded, decoded'⟩, ?_⟩
            split at accepted
            · rename_i username' role' field fields
              split at accepted
              · cases accepted
              · rename_i expiry read
                split at accepted
                · cases accepted
                · rename_i current
                  cases accepted
                  exact ⟨field, expiry, fields, read, by omega⟩
            · cases accepted
  · rintro ⟨payload, ⟨first, second, text, absent, decoded, decoded'⟩, field, expiry, fields, read, current⟩
    simp only [validateToken, splitDot_iff.mpr ⟨text, absent⟩, decoded, decoded', fields, read, ne_eq, not_true_eq_false,
      ↓reduceIte]
    exact if_neg (by omega)

/-- A token that presents what a call signed is accepted for the arguments of the
    call until its expiry. -/
theorem validateToken_of_presents {cfg : AuthConfig} {c : Issue} {token : String} {now : Int} (valid : c.Valid)
    (presents : Presents token c.payload (cfg.sign c.payload)) (current : unix now ≤ c.expiry) :
    validateToken cfg now token = .ok (c.username, c.role) := by
  refine validateToken_ok_iff.mpr ⟨c.payload, presents, toString c.expiry, c.expiry, ?_, ?_, current⟩
  · rw [Issue.payload]
    exact splitOn_payload _ (colon_not_mem_name valid.1) (colon_not_mem_role valid.2)
  · exact parseInt_toString (unix_fits _)

/-- What validateToken reads from a payload that a call has signed. -/
theorem validateToken_presented {cfg : AuthConfig} {c : Issue} {token username role : String} {now : Int} (valid : c.Valid)
    (presents : Presents token c.payload (cfg.sign c.payload)) (accepted : validateToken cfg now token = .ok (username, role)) :
    c.username = username ∧ c.role = role ∧ unix now ≤ c.expiry := by
  obtain ⟨payload, presented, field, expiry, fields, read, current⟩ := validateToken_ok_iff.mp accepted
  obtain ⟨rfl, -⟩ := presents.unique presented
  rw [Issue.payload, splitOn_payload _ (colon_not_mem_name valid.1) (colon_not_mem_role valid.2)] at fields
  simp only [List.cons.injEq, and_true] at fields
  obtain ⟨name, role', digits⟩ := fields
  rw [← digits, show c.expiry = unix (c.now + c.TTL) from rfl, parseInt_toString (unix_fits _)] at read
  have same : c.expiry = expiry := Option.some.inj read
  exact ⟨name, role', same ▸ current⟩

theorem token_presents (cfg : AuthConfig) (c : Issue) : Presents (c.token cfg) c.payload (cfg.sign c.payload) := by
  refine ⟨encodeToString c.payload, encodeToString (cfg.sign c.payload), ?_, dot_not_mem_encodeToString _,
    decodeString_encodeToString _, decodeString_encodeToString _⟩
  simp [Issue.token, generateToken, Issue.payload, Issue.expiry]

/-- Where signatures are not forged, the accepted tokens are those that present a
    signed payload: they stand for the user and the role it was signed for, until
    its expiry. -/
theorem validateToken_iff (cfg : AuthConfig) (issued : Set Issue) (valid : ∀ c ∈ issued, c.Valid) :
    (∀ token, Unforged cfg issued token → ∀ now username role, validateToken cfg now token = .ok (username, role) ↔
        ∃ c ∈ issued, c.username = username ∧ c.role = role ∧ Presents token c.payload (cfg.sign c.payload) ∧
          unix now ≤ c.expiry) ∧
      (∀ c ∈ issued, ∀ now, unix now ≤ c.expiry → validateToken cfg now (c.token cfg) = .ok (c.username, c.role)) ∧
      ∀ token, ∀ c ∈ issued, Presents token c.payload (cfg.sign c.payload) → ∀ now username role,
        validateToken cfg now token = .ok (username, role) → username = c.username ∧ role = c.role := by
  refine ⟨?_, ?_, ?_⟩
  · intro token unforged now username role
    constructor
    · intro accepted
      obtain ⟨payload, presents, -⟩ := validateToken_ok_iff.mp accepted
      obtain ⟨c, member, rfl⟩ := unforged payload presents
      obtain ⟨name, role', current⟩ := validateToken_presented (valid c member) presents accepted
      exact ⟨c, member, name, role', presents, current⟩
    · rintro ⟨c, member, rfl, rfl, presents, current⟩
      exact validateToken_of_presents (valid c member) presents current
  · intro c member now current
    exact validateToken_of_presents (valid c member) (token_presents cfg c) current
  · intro token c member presents now username role accepted
    obtain ⟨name, role', -⟩ := validateToken_presented (valid c member) presents accepted
    exact ⟨name.symm, role'.symm⟩

/-- A configuration whose signatures are all alike, for runs on given inputs. -/
def zeroConfig : AuthConfig := ⟨fun _ => List.replicate 32 0, 3600000000000⟩

def rootIssue : Issue := ⟨"root", RoleAdmin, 0, 3600000000000⟩

/-- A minute after its issue the token is valid. -/
theorem validateToken_iff_root :
    validateToken zeroConfig 60000000000 (rootIssue.token zeroConfig) = .ok ("root", RoleAdmin) :=
  (validateToken_iff zeroConfig {rootIssue} (by rintro c rfl; exact ⟨by decide, by decide⟩)).2.1 rootIssue rfl 60000000000 (by decide)

/-- The same signature with other unused bits at its end. -/
def alteredToken : String :=
  String.ofList (encodeToString rootIssue.payload ++ '.' :: (List.replicate 42 'A' ++ ['B']))

/-- A token need not be the encoding of a payload and its signature. -/
theorem accepted_token_not_encoded :
    ¬ ∀ (cfg : AuthConfig) (issued : Set Issue), (∀ c ∈ issued, c.Valid) → ∀ token, Unforged cfg issued token →
      ∀ now username role, validateToken cfg now token = .ok (username, role) ↔
        ∃ c ∈ issued, c.username = username ∧ c.role = role ∧
          token.toList = encodeToString c.payload ++ '.' :: encodeToString (cfg.sign c.payload) ∧ unix now ≤ c.expiry := by
  intro all
  have valid : rootIssue.Valid := ⟨by decide, by decide⟩
  have presents : Presents alteredToken rootIssue.payload (zeroConfig.sign rootIssue.payload) :=
    ⟨_, _, String.toList_ofList, dot_not_mem_encodeToString _, decodeString_encodeToString _, by decide⟩
  have unforged : Unforged zeroConfig {rootIssue} alteredToken :=
    fun payload presented => ⟨rootIssue, rfl, (presents.unique presented).1⟩
  have accepted : validateToken zeroConfig 0 alteredToken = .ok ("root", RoleAdmin) :=
    validateToken_of_presents valid presents (by decide)
  obtain ⟨c, rfl, -, -, text, -⟩ := (all zeroConfig {rootIssue} (by rintro c rfl; exact valid) alteredToken unforged 0 "root"
    RoleAdmin).mp accepted
  rw [alteredToken, String.toList_ofList] at text
  have signature := List.append_cancel_left text
  exact absurd signature (by decide)

end Microserver.Tokens
