/-
Tokens (`internal/auth/jwt.go`): a header, the claims and a signature, each in base64 and joined by dots.
`encoding/json` and HMAC-SHA256 are those of a library that is given; the base64 is that of `Base64`. A token is
accepted with the claims it was made of up to the second it expires, and under no secret that signs it otherwise.
-/
import Quorum.Job.Basic
import Quorum.Lib.Base64

namespace Quorum

namespace Auth

/-- `Claims`. -/
structure Claims where
  userID : String
  role : String
  issuedAt : Int
  expiresAt : Int
  deriving DecidableEq, Repr

structure Header where
  alg : String
  typ : String

/-- The errors of the package. `invalidRoleOf` is `ErrInvalidRole` wrapped with the role. -/
inductive Error where
  | invalidToken
  | expiredToken
  | invalidRole
  | invalidRoleOf (role : String)
  | emptySecret
  deriving DecidableEq, Repr

/-- What the package takes from `encoding/json` and `crypto`. A signature has the 32 bytes of a SHA-256 sum. -/
structure Library where
  marshalHeader : Header → List UInt8
  marshalClaims : Claims → List UInt8
  unmarshalClaims : List UInt8 → Option Claims
  hmacSHA256 : (key message : List UInt8) → Vector UInt8 32

def roleAdmin : String := "admin"
def roleSubmitter : String := "submitter"
def roleViewer : String := "viewer"

def isValidRole (role : String) : Bool := role = roleAdmin ∨ role = roleSubmitter ∨ role = roleViewer

/-- `RoleSatisfies`. -/
def roleSatisfies (userRole : String) (allowedRoles : List String) : Bool :=
  if userRole = roleAdmin then true else allowedRoles.any fun allowed => userRole = allowed

/-- `Time.Unix`: whole seconds since the start of 1970, which is that many seconds after the zero time. -/
def unix (t : Time) : Int := t / second - 62135596800

/-- The dot between the parts of a token. -/
def dot : UInt8 := 46

section
variable (lib : Library)

def signHS256 (message key : List UInt8) : List UInt8 := (lib.hmacSHA256 key message).toList

/-- What is signed: the header and the claims. -/
def signingInput (claims : Claims) : List UInt8 :=
  Base64.encode (lib.marshalHeader { alg := "HS256", typ := "JWT" }) ++ dot :: Base64.encode (lib.marshalClaims claims)

def generateToken (now : Time) (secret : List UInt8) (userID role : String) (ttl : Duration) :
    Except Error (List UInt8) :=
  if secret = [] then .error .emptySecret
  else if !isValidRole role then .error (.invalidRoleOf role)
  else
    let claims := { userID := userID, role := role, issuedAt := unix now, expiresAt := unix (now + ttl) }
    .ok (signingInput lib claims ++ dot :: Base64.encode (signHS256 lib (signingInput lib claims) secret))

/-- `VerifyToken` from the three parts on. -/
def verifyParts (now : Time) (secret headerB64 claimsB64 sigB64 : List UInt8) : Except Error Claims :=
  match Base64.decode sigB64 with
  | none => .error .invalidToken
  | some actualSig =>
    if signHS256 lib (headerB64 ++ dot :: claimsB64) secret ≠ actualSig then .error .invalidToken
    else
      match Base64.decode claimsB64 with
      | none => .error .invalidToken
      | some claimsBytes =>
        match lib.unmarshalClaims claimsBytes with
        | none => .error .invalidToken
        | some claims =>
          if claims.expiresAt > 0 ∧ unix now > claims.expiresAt then .error .expiredToken
          else if !isValidRole claims.role then .error .invalidRole
          else .ok claims

def verifyToken (now : Time) (secret token : List UInt8) : Except Error Claims :=
  if secret = [] then .error .emptySecret
  else
    match token.splitOn dot with
    | [headerB64, claimsB64, sigB64] => verifyParts lib now secret headerB64 claimsB64 sigB64
    | _ => .error .invalidToken

end

/-! ## The parts of a token -/

theorem splitOn_dots {a b c : List UInt8} (ha : dot ∉ a) (hb : dot ∉ b) (hc : dot ∉ c) :
    (a ++ dot :: b ++ dot :: c).splitOn dot = [a, b, c] := by
  have hfree : ∀ {l : List UInt8}, dot ∉ l → ∀ x ∈ l, (x == dot) = false := by
    intro l hl x hx
    exact beq_eq_false_iff_ne.2 fun heq => hl (heq ▸ hx)
  unfold List.splitOn
  rw [List.append_assoc, List.cons_append, List.splitOnP_append_cons_of_forall_mem (hfree ha) dot (beq_self_eq_true _),
    List.splitOnP_append_cons_of_forall_mem (hfree hb) dot (beq_self_eq_true _), List.splitOnP_eq_singleton (hfree hc)]

/-- A text in base64 has no dot. -/
theorem dot_not_mem_encode (l : List UInt8) : dot ∉ Base64.encode l := Base64.not_mem_encode (by decide) l

section
variable {lib : Library} {secret : List UInt8} {claims : Claims}

/-- A token that was signed, perhaps with another secret, is taken apart into what it was put together from. -/
theorem verifyToken_signed (hsecret : secret ≠ []) (now : Time) (sig : List UInt8) :
    verifyToken lib now secret (signingInput lib claims ++ dot :: Base64.encode sig) =
      verifyParts lib now secret (Base64.encode (lib.marshalHeader { alg := "HS256", typ := "JWT" }))
        (Base64.encode (lib.marshalClaims claims)) (Base64.encode sig) := by
  unfold verifyToken signingInput
  rw [if_neg hsecret, splitOn_dots (dot_not_mem_encode _) (dot_not_mem_encode _) (dot_not_mem_encode _)]

/-- With the right signature it is the claims that decide. -/
theorem verifyToken_right (hsecret : secret ≠ []) (now : Time)
    (hjson : lib.unmarshalClaims (lib.marshalClaims claims) = some claims) :
    verifyToken lib now secret
        (signingInput lib claims ++ dot :: Base64.encode (signHS256 lib (signingInput lib claims) secret)) =
      if claims.expiresAt > 0 ∧ unix now > claims.expiresAt then .error .expiredToken
      else if !isValidRole claims.role then .error .invalidRole
      else .ok claims := by
  rw [verifyToken_signed hsecret]
  unfold verifyParts
  rw [Base64.decode_encode, Base64.decode_encode]
  dsimp only
  rw [if_neg (fun hne => hne rfl), hjson]

/-- With a wrong one the token is refused. -/
theorem verifyToken_wrong (hsecret : secret ≠ []) (now : Time) {sig : List UInt8}
    (hsig : signHS256 lib (signingInput lib claims) secret ≠ sig) :
    verifyToken lib now secret (signingInput lib claims ++ dot :: Base64.encode sig) = .error .invalidToken := by
  rw [verifyToken_signed hsecret]
  unfold verifyParts
  rw [Base64.decode_encode]
  exact if_pos hsig

end

/-- A token made by `GenerateToken` gives back, under the same secret, the claims it was made of up to the second in
which it expires, and is expired from then on; under a secret that signs it otherwise it is invalid. -/
theorem token_roundTrip (lib : Library) {secret : List UInt8} (hsecret : secret ≠ []) (userID : String) {role : String}
    (hrole : isValidRole role = true) (now : Time) (ttl : Duration) (hexpires : 0 < unix (now + ttl))
    (hjson : lib.unmarshalClaims (lib.marshalClaims ⟨userID, role, unix now, unix (now + ttl)⟩) =
      some ⟨userID, role, unix now, unix (now + ttl)⟩) :
    ∃ token, generateToken lib now secret userID role ttl = .ok token ∧
      (∀ later, unix later ≤ unix (now + ttl) →
        verifyToken lib later secret token = .ok ⟨userID, role, unix now, unix (now + ttl)⟩) ∧
      (∀ later, unix (now + ttl) < unix later → verifyToken lib later secret token = .error .expiredToken) ∧
      ∀ other later, other ≠ [] →
        lib.hmacSHA256 other (signingInput lib ⟨userID, role, unix now, unix (now + ttl)⟩) ≠
          lib.hmacSHA256 secret (signingInput lib ⟨userID, role, unix now, unix (now + ttl)⟩) →
        verifyToken lib later other token = .error .invalidToken := by
  have hmake : generateToken lib now secret userID role ttl =
      .ok (signingInput lib ⟨userID, role, unix now, unix (now + ttl)⟩ ++
        dot :: Base64.encode (signHS256 lib (signingInput lib ⟨userID, role, unix now, unix (now + ttl)⟩) secret)) := by
    unfold generateToken
    rw [if_neg hsecret, hrole]
    rfl
  refine ⟨_, hmake, ?_, ?_, ?_⟩
  · intro later hlater
    rw [verifyToken_right hsecret later hjson, if_neg (by dsimp only; omega)]
    dsimp only
    rw [hrole]
    rfl
  · intro later hlater
    rw [verifyToken_right hsecret later hjson]
    exact if_pos ⟨hexpires, hlater⟩
  · intro other later hother hsig
    refine verifyToken_wrong hother later fun heq => hsig ?_
    exact Vector.toList_inj.1 heq

/-- A user whose id has dots, and the text `encoding/json` writes for the claims of a token that lives for an hour. -/
def operatorClaims : Claims :=
  { userID := "ops.team.7", role := roleSubmitter, issuedAt := 1700000000, expiresAt := 1700003600 }

def operatorText : List UInt8 :=
  "\x7b\"user_id\":\"ops.team.7\",\"role\":\"submitter\",\"iat\":1700000000,\"exp\":1700003600\x7d".toUTF8.toList

/-- The codec on these claims, and a sum of the length it has to have. -/
def operatorLibrary : Library where
  marshalHeader _ := "\x7b\"alg\":\"HS256\",\"typ\":\"JWT\"\x7d".toUTF8.toList
  marshalClaims c := if c = operatorClaims then operatorText else []
  unmarshalClaims l := if l = operatorText then some operatorClaims else none
  hmacSHA256 key _ := Vector.replicate 32 (key.headD 0)

theorem operator_roundTrip :
    let issued : Time := (62135596800 + 1700000000) * second
    ∃ token, generateToken operatorLibrary issued [1] "ops.team.7" roleSubmitter (3600 * second) = .ok token ∧
      verifyToken operatorLibrary (issued + 3600 * second) [1] token = .ok operatorClaims ∧
      verifyToken operatorLibrary (issued + 3601 * second) [1] token = .error .expiredToken ∧
      verifyToken operatorLibrary issued [2] token = .error .invalidToken := by
  intro issued
  have hissued : unix issued = 1700000000 := by decide +kernel
  have hexpires : unix (issued + 3600 * second) = 1700003600 := by decide +kernel
  have hnext : unix (issued + 3601 * second) = 1700003601 := by decide +kernel
  have hjson : operatorLibrary.unmarshalClaims (operatorLibrary.marshalClaims operatorClaims) =
      some operatorClaims := by
    unfold operatorLibrary
    dsimp only
    rw [if_pos rfl, if_pos rfl]
  have hsecret : ([1] : List UInt8) ≠ [] := by decide
  have hrole : isValidRole roleSubmitter = true := by decide +kernel
  obtain ⟨token, hmake, hvalid, hexpired, hwrong⟩ :=
    token_roundTrip operatorLibrary hsecret "ops.team.7" hrole issued (3600 * second)
      (by rw [hexpires]; decide) (by rw [hissued, hexpires]; exact hjson)
  refine ⟨token, hmake, ?_, ?_, ?_⟩
  · rw [hvalid _ (Int.le_refl _), hissued, hexpires]
    rfl
  · exact hexpired _ (by rw [hexpires, hnext]; decide)
  · exact hwrong [2] issued (by decide) (by decide)

/-- What `VerifyToken` accepts is signed with the secret, has not expired and names a valid role. -/
theorem verifyToken_ok {lib : Library} {now : Time} {secret token : List UInt8} {claims : Claims}
    (h : verifyToken lib now secret token = .ok claims) :
    ∃ headerB64 claimsB64 sigB64 claimsBytes, token.splitOn dot = [headerB64, claimsB64, sigB64] ∧
      Base64.decode sigB64 = some (signHS256 lib (headerB64 ++ dot :: claimsB64) secret) ∧
      Base64.decode claimsB64 = some claimsBytes ∧ lib.unmarshalClaims claimsBytes = some claims ∧
      (0 < claims.expiresAt → unix now ≤ claims.expiresAt) ∧ isValidRole claims.role = true := by
  unfold verifyToken at h
  split at h
  · cases h
  split at h
  · rename_i headerB64 claimsB64 sigB64 hparts
    unfold verifyParts at h
    split at h
    · cases h
    rename_i actualSig hsig
    split at h
    · cases h
    rename_i hequal
    split at h
    · cases h
    rename_i claimsBytes hbytes
    split at h
    · cases h
    rename_i c hclaims
    split at h
    · cases h
    rename_i hexpired
    split at h
    · cases h
    rename_i hrole
    cases h
    refine ⟨headerB64, claimsB64, sigB64, claimsBytes, hparts, ?_, hbytes, hclaims, ?_, ?_⟩
    · rw [hsig, not_not.1 hequal]
    · intro hpos
      exact Int.not_lt.1 fun hlate => hexpired ⟨hpos, hlate⟩
    · simpa using hrole
  · cases h

/-- Only who has the secret signs: if the signature of the token is right, its header and claims are those of a token
that was issued. -/
def Genuine (lib : Library) (secret : List UInt8) (issued : Claims → Prop) (token : List UInt8) : Prop :=
  ∀ headerB64 claimsB64 sigB64, token.splitOn dot = [headerB64, claimsB64, sigB64] →
    Base64.decode sigB64 = some (signHS256 lib (headerB64 ++ dot :: claimsB64) secret) →
    ∃ claims, issued claims ∧ headerB64 ++ dot :: claimsB64 = signingInput lib claims

/-- What was signed is found again in the parts of a token. -/
theorem claimsB64_of_signingInput {lib : Library} {token headerB64 claimsB64 sigB64 : List UInt8} {claims : Claims}
    (hparts : token.splitOn dot = [headerB64, claimsB64, sigB64])
    (hsigned : headerB64 ++ dot :: claimsB64 = signingInput lib claims) :
    claimsB64 = Base64.encode (lib.marshalClaims claims) := by
  have hfree : ∀ l : List UInt8, ∀ x ∈ Base64.encode l, (x == dot) = false := by
    intro l x hx
    exact beq_eq_false_iff_ne.2 fun heq => dot_not_mem_encode l (heq ▸ hx)
  have htoken : token = signingInput lib claims ++ dot :: sigB64 := by
    have hjoin : [dot].intercalate (token.splitOn dot) = token := List.intercalate_splitOn dot
    rw [← hjoin, hparts, ← hsigned]
    simp [List.intercalate]
  rw [htoken, signingInput, List.append_assoc, List.cons_append, List.splitOn,
    List.splitOnP_append_cons_of_forall_mem (hfree _) dot (beq_self_eq_true _),
    List.splitOnP_append_cons_of_forall_mem (hfree _) dot (beq_self_eq_true _)] at hparts
  simp only [List.cons.injEq] at hparts
  exact hparts.2.1.symm

/-- A token that is accepted has the claims of one that was issued and has not expired. -/
theorem verifyToken_genuine {lib : Library} {now : Time} {secret token : List UInt8} {claims : Claims}
    {issued : Claims → Prop} (hjson : ∀ c, issued c → lib.unmarshalClaims (lib.marshalClaims c) = some c)
    (hgenuine : Genuine lib secret issued token) (h : verifyToken lib now secret token = .ok claims) :
    issued claims ∧ (0 < claims.expiresAt → unix now ≤ claims.expiresAt) ∧ isValidRole claims.role = true := by
  obtain ⟨headerB64, claimsB64, sigB64, claimsBytes, hparts, hsig, hbytes, hclaims, hexpires, hrole⟩ := verifyToken_ok h
  obtain ⟨c, hissued, hsigned⟩ := hgenuine _ _ _ hparts hsig
  rw [claimsB64_of_signingInput hparts hsigned, Base64.decode_encode] at hbytes
  cases hbytes
  rw [hjson c hissued] at hclaims
  cases hclaims
  exact ⟨hissued, hexpires, hrole⟩

end Auth

end Quorum
