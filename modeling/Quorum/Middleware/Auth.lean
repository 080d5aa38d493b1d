/-
The middleware in front of the handlers (`internal/middleware/auth.go`): a request has to carry a token that
`VerifyToken` accepts, and the role in the token has to be one of those that the route allows, or `admin`. A request
that is refused reaches no handler.
-/
import Quorum.Auth.Jwt
import Quorum.Handlers.Api

namespace Quorum

namespace Middleware

open Auth Http

/-- A handler: the claims in the context of its request, if any, what the request finds outside, the request and its
path values. -/
abbrev Handler (σ : Type) := Option Claims → Reading → Request → List String → ControlNode σ → Response × ControlNode σ

/-- `http.StatusText` of the two codes of this file. -/
def statusText (code : Nat) : String := if code = 401 then "Unauthorized" else "Forbidden"

/-- `writeAuthError`. -/
def writeAuthError (code : Nat) (message : String) : Response := ⟨code, .denied (statusText code) message⟩

/-- `strings.SplitN(authHeader, " ", 2)`, if there are two parts. -/
def splitHeader (authHeader : List Char) : Option (List Char × List Char) :=
  match authHeader.dropWhile (· ≠ ' ') with
  | [] => none
  | _ :: rest => some (authHeader.takeWhile (· ≠ ' '), rest)

/-- `strings.EqualFold(scheme, "Bearer")`; no letter of the word has a case outside of ASCII. -/
def isBearer (scheme : List Char) : Bool := scheme.map Char.toLower = ['b', 'e', 'a', 'r', 'e', 'r']

/-- The token in a header; none if the header has another form. -/
def bearerToken (authHeader : String) : Option (List UInt8) :=
  ((splitHeader authHeader.toList).filter fun parts => isBearer parts.1).map fun parts =>
    (trimSpace (String.ofList parts.2)).toUTF8.toList

section
variable (lib : Library) (secret : List UInt8)

/-- The part of `Authenticate` before the next handler: the claims of the token, or the message of the answer 401. -/
def claimsOf (now : Time) (authHeader : String) : Except String Claims :=
  if authHeader = "" then .error "missing Authorization header"
  else
    match bearerToken authHeader with
    | none => .error "invalid Authorization header format, expected 'Bearer <token>'"
    | some token =>
      match verifyToken lib now secret token with
      | .ok claims => .ok claims
      | .error .expiredToken => .error "token has expired"
      | .error _ => .error "invalid or malformed token"

variable {σ : Type}

def authenticate (next : Handler σ) : Handler σ := fun _ rd r ids n =>
  match claimsOf lib secret rd.verifiedAt r.authorization with
  | .error message => (writeAuthError 401 message, n)
  | .ok claims => next (some claims) rd r ids n

def requireRoles (allowedRoles : List String) (next : Handler σ) : Handler σ :=
  authenticate lib secret fun claims rd r ids n =>
    if claims.any fun c => roleSatisfies c.role allowedRoles then next claims rd r ids n
    else (writeAuthError 403 "insufficient permissions for this resource", n)

/-- The request carries a token with a role that is allowed. -/
def grants (now : Time) (authHeader : String) (allowedRoles : List String) : Bool :=
  match claimsOf lib secret now authHeader with
  | .ok claims => roleSatisfies claims.role allowedRoles
  | .error _ => false

/-- The answer to a request that is refused. -/
def refusal (now : Time) (authHeader : String) : Response :=
  match claimsOf lib secret now authHeader with
  | .ok _ => writeAuthError 403 "insufficient permissions for this resource"
  | .error message => writeAuthError 401 message

variable {lib : Library} {secret : List UInt8}

/-- A handler that does not look at the claims of its request is reached unchanged, or not at all. -/
theorem requireRoles_eq (allowedRoles : List String)
    (h : Reading → Request → List String → ControlNode σ → Response × ControlNode σ) (ctx : Option Claims)
    (rd : Reading) (r : Request) (ids : List String) (n : ControlNode σ) :
    requireRoles lib secret allowedRoles (fun _ => h) ctx rd r ids n =
      if grants lib secret rd.verifiedAt r.authorization allowedRoles then h rd r ids n
      else (refusal lib secret rd.verifiedAt r.authorization, n) := by
  unfold requireRoles authenticate grants refusal
  cases claimsOf lib secret rd.verifiedAt r.authorization with
  | error message => rfl
  | ok claims => rfl

theorem refusal_code (now : Time) (authHeader : String) :
    (refusal lib secret now authHeader).code = 401 ∨ (refusal lib secret now authHeader).code = 403 := by
  unfold refusal
  cases claimsOf lib secret now authHeader with
  | error message => exact .inl rfl
  | ok claims => exact .inr rfl

/-- The claims of a request are those of the token in its header. -/
theorem claimsOf_ok {now : Time} {authHeader : String} {claims : Claims}
    (h : claimsOf lib secret now authHeader = .ok claims) :
    ∃ token, bearerToken authHeader = some token ∧ verifyToken lib now secret token = .ok claims := by
  unfold claimsOf at h
  split at h
  · cases h
  split at h
  · cases h
  rename_i token htoken
  split at h
  · rename_i hverify
    cases h
    exact ⟨token, htoken, hverify⟩
  · cases h
  · cases h

end

/-! ## A client with a token -/

theorem toList_loop (bytes : ByteArray) (i : Nat) (acc : List UInt8) :
    ByteArray.toList.loop bytes i acc = acc.reverse ++ bytes.data.toList.drop i := by
  fun_induction ByteArray.toList.loop bytes i acc with
  | case1 i acc hi ih =>
    have hlt : i < bytes.data.toList.length := hi
    rw [ih, List.reverse_cons, List.append_assoc, List.drop_eq_getElem_cons hlt]
    have hget : bytes.get! i = bytes.data.toList[i] := getElem!_pos bytes.data i hi
    rw [hget]
    rfl
  | case2 i acc hi =>
    rw [List.drop_eq_nil_of_le (Nat.le_of_not_lt hi), List.append_nil]

theorem toList_toUTF8 (chars : List Char) :
    (String.ofList chars).toUTF8.toList = chars.flatMap String.utf8EncodeChar := by
  rw [ByteArray.toList, toList_loop, String.toUTF8_eq_toByteArray, String.toByteArray_ofList, List.utf8Encode,
    List.data_toByteArray]
  rfl

/-- The header of a client that sends a token. -/
def bearerHeader (token : List UInt8) : String :=
  String.ofList (['B', 'e', 'a', 'r', 'e', 'r', ' '] ++ token.map fun b => Char.ofNat b.toNat)

/-- The byte stands for a visible character of ASCII. -/
def IsVisible (b : UInt8) : Prop := 32 < b.toNat ∧ b.toNat < 127

theorem toNat_char {b : UInt8} (h : IsVisible b) : (Char.ofNat b.toNat).toNat = b.toNat := by
  have hall : ∀ n : Fin 127, (Char.ofNat n).toNat = n := by decide
  exact hall ⟨_, h.2⟩

theorem isSpace_char {b : UInt8} (h : IsVisible b) : isSpace (Char.ofNat b.toNat) = false := by
  obtain ⟨hlow, hhigh⟩ := id h
  simp only [isSpace, toNat_char h, Bool.or_eq_false_iff, Bool.and_eq_false_iff, decide_eq_false_iff_not]
  omega

theorem utf8EncodeChar_char {b : UInt8} (h : IsVisible b) : String.utf8EncodeChar (Char.ofNat b.toNat) = [b] := by
  have hval : (Char.ofNat b.toNat).val.toNat = b.toNat := toNat_char h
  rw [String.utf8EncodeChar.eq_1, hval, if_pos (Nat.le_of_lt_succ (Nat.lt_of_lt_of_le h.2 (by decide))),
    UInt8.ofNat_toNat]

theorem dropWhile_visible {token : List UInt8} (h : ∀ b ∈ token, IsVisible b) :
    (token.map fun b => Char.ofNat b.toNat).dropWhile isSpace = token.map fun b => Char.ofNat b.toNat := by
  cases token with
  | nil => rfl
  | cons b rest => 
    have := isSpace_char (h b List.mem_cons_self)
    simp [this]

/-- The token is read back, as nothing in it is taken for a space. -/
theorem bearerToken_bearerHeader {token : List UInt8} (h : ∀ b ∈ token, IsVisible b) :
    bearerToken (bearerHeader token) = some token := by
  have hsplit : splitHeader (bearerHeader token).toList =
      some (['B', 'e', 'a', 'r', 'e', 'r'], token.map fun b => Char.ofNat b.toNat) := by
    rw [bearerHeader, String.toList_ofList]
    rfl
  have htrim : trimSpace (String.ofList (token.map fun b => Char.ofNat b.toNat)) =
      String.ofList (token.map fun b => Char.ofNat b.toNat) := by
    have hback : ∀ b ∈ token.reverse, IsVisible b := fun b hb => h b (List.mem_reverse.1 hb)
    rw [trimSpace, String.toList_ofList, dropWhile_visible h, ← List.map_reverse, dropWhile_visible hback,
      List.map_reverse, List.reverse_reverse]
  have hbytes : (token.map fun b => Char.ofNat b.toNat).flatMap String.utf8EncodeChar = token := by
    rw [List.flatMap_map]
    calc
      _ = token.flatMap fun b => [b] := List.flatMap_congr fun b hb => utf8EncodeChar_char (h b hb)
      _ = token := List.flatMap_singleton' token
  rw [bearerToken, hsplit]
  show some (trimSpace _).toUTF8.toList = _
  rw [htrim, toList_toUTF8, hbytes]

theorem isVisible_of_mem_encode {l : List UInt8} {b : UInt8} (h : b ∈ Base64.encode l) : IsVisible b := by
  have hsome := Base64.isSome_value_of_mem_encode l b h
  unfold Base64.value at hsome
  unfold IsVisible
  grind

/-- The characters of a token. -/
theorem isVisible_token {lib : Library} {claims : Claims} {sig : List UInt8} :
    ∀ b ∈ signingInput lib claims ++ dot :: Base64.encode sig, IsVisible b := by
  intro b hb
  simp only [signingInput, List.mem_append, List.mem_cons] at hb
  rcases hb with (hb | rfl | hb) | rfl | hb
  · exact isVisible_of_mem_encode hb
  · exact ⟨by decide, by decide⟩
  · exact isVisible_of_mem_encode hb
  · exact ⟨by decide, by decide⟩
  · exact isVisible_of_mem_encode hb

/-- A client is known by the claims of the token it sends. -/
theorem claimsOf_bearerHeader {lib : Library} {secret : List UInt8} {now : Time} {token : List UInt8} {claims : Claims}
    (hvisible : ∀ b ∈ token, IsVisible b) (hverify : verifyToken lib now secret token = .ok claims) :
    claimsOf lib secret now (bearerHeader token) = .ok claims := by
  have hsome : bearerHeader token ≠ "" := by
    intro hempty
    have hchars := congrArg String.toList hempty
    rw [bearerHeader, String.toList_ofList] at hchars
    cases hchars
  unfold claimsOf
  rw [if_neg hsome, bearerToken_bearerHeader hvisible]
  dsimp only
  rw [hverify]

end Middleware

end Quorum
