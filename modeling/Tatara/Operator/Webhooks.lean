import Tatara.Lib.Program
import Tatara.Operator.FlakeOrg
import Tatara.Operator.StatusPatch

/-! The two handlers of the pushes of GitHub, and when both of them ask for a signature. -/

namespace Tatara.Operator

open Tatara.Rust

-- A statement about the characters of a text is decided on these, not on all characters.
attribute [local instance (high)] List.decidableBAll

/-- The status codes of the answers to a push. -/
inductive StatusCode where
  | ok
  | unauthorized
  | notFound
  | internalServerError
  deriving DecidableEq, Repr

/-- `Secret`. -/
structure Secret where
  data : Option (Std.ExtTreeMap String (List UInt8))

/-- What a handler asks of its surroundings. -/
inductive WebhookCall where
  | getSource (ns name : String)
  | getSecret (ns name : String)
  | now
  | patchSource (ns name : String) (patch : Json)

/-- The answers to calls. -/
@[reducible] def WebhookAnswer : WebhookCall → Type
  | .getSource _ _ => Except String FlakeSource
  | .getSecret _ _ => Except String Secret
  | .now => DateTime
  | .patchSource _ _ _ => Except String Unit

/-- Programs of a handler. -/
abbrev WebhookTask := Program WebhookCall WebhookAnswer

/-- `get` on the flake sources of a namespace. -/
def getSource (ns name : String) : WebhookTask (Except String FlakeSource) :=
  Program.call (WebhookCall.getSource ns name)

/-- `get` on the secrets of a namespace. -/
def getSecret (ns name : String) : WebhookTask (Except String Secret) :=
  Program.call (WebhookCall.getSecret ns name)

/-- `Utc::now`. -/
def webhookNow : WebhookTask DateTime := Program.call WebhookCall.now

/-- `patch` on the flake sources of a namespace. -/
def patchSource (ns name : String) (patch : Json) : WebhookTask (Except String Unit) :=
  Program.call (WebhookCall.patchSource ns name patch)

/-- `HmacSha256`: a key that is accepted has a code for every message. -/
class HmacSha256 where
  newFromSlice : List UInt8 → Option (List UInt8 → List UInt8)

/-- The headers of a request in their order, with their names in lowercase. -/
abbrev HeaderMap := List (String × List UInt8)

/-- `HeaderValue::to_str`, which is for visible characters and tabs. -/
def toStr (value : List UInt8) : Option (List Char) :=
  if value.all fun byte => (32 ≤ byte && byte < 127) || byte = 9 then
    some (value.map fun byte => Char.ofNat byte.toNat)
  else none

/-- `hex::encode`. -/
def hexEncode (bytes : List UInt8) : List Char :=
  bytes.flatMap fun byte => [Nat.digitChar (byte.toNat / 16), Nat.digitChar (byte.toNat % 16)]

section handlers

variable [HmacSha256] [DateTimeText]

/-- `verify_signature`. -/
def verifySignature (key body : List UInt8) (signatureHeader : List Char) : Bool :=
  match stripPrefix "sha256=".toList signatureHeader with
  | none => false
  | some expected =>
    match HmacSha256.newFromSlice key with
    | none => false
    | some mac => hexEncode (mac body) = expected

/-- The signature of a request, where none is empty. -/
def sigHeader (headers : HeaderMap) : List Char :=
  ((headers.lookup "x-hub-signature-256").bind toStr).getD []

/-- The key that a reference names. -/
def Secret.key (secret : Secret) (secretRef : WebhookSecretRef) : Option (List UInt8) :=
  secret.data.bind fun data => data[secretRef.key]?

/-- The annotation that makes the source be looked at again. -/
def triggerPatch (now : DateTime) : Json :=
  .object [("metadata", .object [("annotations", .object
    [("tatara.pleme.io/webhook-trigger", .string (DateTimeText.toRfc3339 now))])])]

/-- The source is annotated. -/
def trigger (ns name : String) : WebhookTask StatusCode := do
  let now ← webhookNow
  match ← patchSource ns name (triggerPatch now) with
  | .ok () => return .ok
  | .error _ => return .internalServerError

namespace ApiServer

/-- `github_push_handler` of the API server. -/
def githubPushHandler (ns name : String) (headers : HeaderMap) (body : List UInt8) :
    WebhookTask StatusCode := do
  match ← getSource ns name with
  | .error _ => return .notFound
  | .ok source =>
    match source.spec.webhookSecretRef with
    | none => trigger ns name
    | some secretRef =>
      match ← getSecret ns secretRef.name with
      -- Behind `if let Ok` nothing happens to a secret that cannot be read.
      | .error _ => trigger ns name
      | .ok secret =>
        match secret.key secretRef with
        | none => trigger ns name
        | some key =>
          if verifySignature key body (sigHeader headers) then trigger ns name
          else return .unauthorized

end ApiServer

namespace Webhooks

/-- `github_push_handler` of the webhook server. -/
def githubPushHandler (ns name : String) (headers : HeaderMap) (body : List UInt8) :
    WebhookTask StatusCode := do
  match ← getSource ns name with
  | .error _ => return .notFound
  | .ok source =>
    match source.spec.webhookSecretRef with
    | none => trigger ns name
    | some secretRef =>
      match ← getSecret ns secretRef.name with
      | .error _ => return .internalServerError
      | .ok secret =>
        match secret.key secretRef with
        | none => trigger ns name
        | some key =>
          if verifySignature key body (sigHeader headers) then trigger ns name
          else return .unauthorized

end Webhooks

end handlers

/-! ### Signatures -/

/-- The bytes of characters that are ASCII. -/
def asciiBytes (text : List Char) : List UInt8 := text.map fun c => c.toNat.toUInt8

/-- The request has the signature of its body under a key. -/
def Signed [HmacSha256] (key : List UInt8) (headers : HeaderMap) (body : List UInt8) : Prop :=
  ∃ mac, HmacSha256.newFromSlice key = some mac ∧
    headers.lookup "x-hub-signature-256" =
      some (asciiBytes ("sha256=".toList ++ hexEncode (mac body)))

/-- The digits of a code are visible. -/
theorem hexEncode_visible {bytes : List UInt8} {c : Char} (inside : c ∈ hexEncode bytes) :
    32 ≤ c.toNat ∧ c.toNat < 127 := by
  -- There are sixteen digits.
  have digits : ∀ d < 16, 32 ≤ (Nat.digitChar d).toNat ∧ (Nat.digitChar d).toNat < 127 := by decide
  obtain ⟨byte, -, digit⟩ := List.mem_flatMap.mp inside
  have high : byte.toNat / 16 < 16 := by
    have := byte.toNat_lt
    omega
  rcases List.mem_cons.mp digit with rfl | digit
  · exact digits _ high
  · obtain rfl := List.mem_singleton.mp digit
    exact digits _ (Nat.mod_lt _ (by decide))

/-- A text of visible characters is read from its bytes and from no others. -/
theorem toStr_eq_some_iff {value : List UInt8} {text : List Char}
    (visible : ∀ c ∈ text, 32 ≤ c.toNat ∧ c.toNat < 127) :
    toStr value = some text ↔ value = asciiBytes text := by
  -- Byte by byte, as a visible character is its own byte.
  constructor
  · intro read
    unfold toStr at read
    split at read
    · obtain rfl := Option.some.inj read
      have back (byte : UInt8) : (Char.ofNat byte.toNat).toNat.toUInt8 = byte := by
        have valid : byte.toNat.isValidChar := .inl (byte.toNat_lt.trans (by decide))
        have same : (Char.ofNat byte.toNat).toNat = byte.toNat := by
          rw [Char.ofNat, dif_pos valid]
          rfl
        rw [same, Nat.toUInt8_eq, UInt8.ofNat_toNat]
      rw [asciiBytes, List.map_map]
      exact ((List.map_congr_left fun byte _ => back byte).trans (List.map_id _)).symm
    · cases read
  · rintro rfl
    have forth (c) (inside : c ∈ text) : (c.toNat.toUInt8).toNat = c.toNat := by
      have small := (visible c inside).2
      rw [Nat.toUInt8_eq, UInt8.toNat_ofNat']
      omega
    have read : (asciiBytes text).map (fun byte => Char.ofNat byte.toNat) = text := by
      rw [asciiBytes, List.map_map]
      refine (List.map_congr_left fun c inside => ?_).trans (List.map_id _)
      exact (congrArg Char.ofNat (forth c inside)).trans (Char.ofNat_toNat c)
    rw [toStr, if_pos, read]
    refine List.all_eq_true.mpr fun byte inside => ?_
    obtain ⟨c, among, rfl⟩ := List.mem_map.mp inside
    have range := visible c among
    simp only [Bool.or_eq_true, Bool.and_eq_true, decide_eq_true_eq, UInt8.le_iff_toNat_le,
      UInt8.lt_iff_toNat_lt, forth c among]
    exact .inl range

/-- Something is left of a text behind its front. -/
theorem stripPrefix_eq_some_iff {front text rest : List Char} :
    stripPrefix front text = some rest ↔ text = front ++ rest := by
  -- The rest is what is dropped behind the front.
  unfold stripPrefix
  constructor
  · intro stripped
    split at stripped
    · rename_i begins
      obtain ⟨behind, rfl⟩ := begins
      simpa using stripped
    · cases stripped
  · rintro rfl
    simp

/-- What is verified is that the request has the signature of its body. -/
theorem verifySignature_iff [HmacSha256] {key body : List UInt8} {headers : HeaderMap} :
    verifySignature key body (sigHeader headers) = true ↔ Signed key headers body := by
  have visible (bytes : List UInt8) :
      ∀ c ∈ "sha256=".toList ++ hexEncode bytes, 32 ≤ c.toNat ∧ c.toNat < 127 := by
    intro c inside
    rcases List.mem_append.mp inside with front | digit
    · have fixed : ∀ d ∈ "sha256=".toList, 32 ≤ d.toNat ∧ d.toNat < 127 := by decide
      exact fixed c front
    · exact hexEncode_visible digit
  -- The header has to be there, since an empty text has nothing in front of a code.
  have header {code : List Char} : sigHeader headers = "sha256=".toList ++ code ↔
      ∃ value, headers.lookup "x-hub-signature-256" = some value ∧
        toStr value = some ("sha256=".toList ++ code) := by
    unfold sigHeader
    rcases headers.lookup "x-hub-signature-256" with _ | value
    · simp
    · rcases read : toStr value with _ | text <;> simp [read]
  unfold verifySignature Signed
  constructor
  · intro verified
    split at verified
    · cases verified
    · rename_i expected stripped
      split at verified
      · cases verified
      · rename_i mac accepted
        obtain rfl := of_decide_eq_true verified
        obtain ⟨value, there, read⟩ := header.mp (stripPrefix_eq_some_iff.mp stripped)
        exact ⟨mac, accepted, by rw [there, (toStr_eq_some_iff (visible _)).mp read]⟩
  · rintro ⟨mac, accepted, there⟩
    have read := header.mpr ⟨_, there, (toStr_eq_some_iff (visible (mac body))).mpr rfl⟩
    rw [stripPrefix_eq_some_iff.mpr read]
    simp [accepted]

/-! ### Pushes -/

/-- A call changes the source. -/
def WebhookCall.IsPatch : WebhookCall → Prop
  | patchSource _ _ _ => True
  | getSource _ _ | getSecret _ _ | now => False

/-- A push to a source that names a secret, and the answers of the surroundings. -/
structure Push where
  ns : String
  name : String
  headers : HeaderMap
  body : List UInt8
  answer : ∀ call, WebhookAnswer call
  source : FlakeSource
  secretRef : WebhookSecretRef
  found : answer (.getSource ns name) = .ok source
  named : source.spec.webhookSecretRef = some secretRef

namespace Push

variable (p : Push)

/-- The calls of a handler with their answers, and its status code. -/
def serve (handler : String → String → HeaderMap → List UInt8 → WebhookTask StatusCode) :
    List (Program.Exchange WebhookAnswer) × StatusCode :=
  (handler p.ns p.name p.headers p.body).play p.answer

/-- The secret can be read and has the key. -/
def KeyAvailable (key : List UInt8) : Prop :=
  ∃ secret, p.answer (.getSecret p.ns p.secretRef.name) = .ok secret ∧
    secret.key p.secretRef = some key

section

variable [HmacSha256] [DateTimeText]

/-- The push is signed with the key of the source. -/
def Authentic : Prop := ∃ key, p.KeyAvailable key ∧ Signed key p.headers p.body

/-- A handler changes the source only for an authentic push. -/
def FailsClosed
    (handler : String → String → HeaderMap → List UInt8 → WebhookTask StatusCode) : Prop :=
  (∃ exchange ∈ (p.serve handler).1, exchange.1.IsPatch) → p.Authentic

/-- Both handlers fail closed, and with the same status code. -/
structure FailClosedAlike : Prop where
  apiServer : p.FailsClosed ApiServer.githubPushHandler
  webhooks : p.FailsClosed Webhooks.githubPushHandler
  alike : (p.serve ApiServer.githubPushHandler).2 = (p.serve Webhooks.githubPushHandler).2

variable {p}

omit [HmacSha256] in
/-- Whatever the surroundings answer, the source is patched. -/
theorem patches_trigger :
    ∃ exchange ∈ ((trigger p.ns p.name).play p.answer).1, exchange.1.IsPatch := by
  refine ⟨⟨.patchSource p.ns p.name (triggerPatch (p.answer .now)), p.answer _⟩, ?_, trivial⟩
  simp [trigger, webhookNow, patchSource, Program.play_call_bind]

omit [HmacSha256] [DateTimeText] in
/-- A secret that has been read has the key or has it not. -/
theorem keyAvailable_iff {secret : Secret} {key : List UInt8}
    (read : p.answer (.getSecret p.ns p.secretRef.name) = .ok secret) :
    p.KeyAvailable key ↔ secret.key p.secretRef = some key := by
  -- The answer has been given, so that the secret is this one.
  unfold KeyAvailable
  rw [read]
  constructor
  · rintro ⟨_, ⟨⟩, has⟩
    exact has
  · exact fun has => ⟨secret, rfl, has⟩

/-- The handlers go the same way once the secret has been read. -/
theorem serve_eq_of_read {secret : Secret}
    (read : p.answer (.getSecret p.ns p.secretRef.name) = .ok secret) :
    p.serve ApiServer.githubPushHandler = p.serve Webhooks.githubPushHandler := by
  simp only [serve, ApiServer.githubPushHandler, Webhooks.githubPushHandler, getSource, getSecret,
    Program.play_call_bind, p.found, p.named, read]

/-- Where the secret cannot be read, the API server patches the source nevertheless. -/
theorem patches_apiServer_of_error {error : String}
    (unread : p.answer (.getSecret p.ns p.secretRef.name) = .error error) :
    ∃ exchange ∈ (p.serve ApiServer.githubPushHandler).1, exchange.1.IsPatch := by
  -- The patch is the one that `trigger` makes behind the two requests.
  obtain ⟨exchange, inside, patch⟩ := patches_trigger (p := p)
  refine ⟨exchange, ?_, patch⟩
  simp only [serve, ApiServer.githubPushHandler, getSource, getSecret, Program.play_call_bind,
    p.found, p.named, unread]
  exact List.mem_cons_of_mem _ (List.mem_cons_of_mem _ inside)

/-- A secret without the key is as good as none. -/
theorem patches_webhooks_of_keyless {secret : Secret}
    (read : p.answer (.getSecret p.ns p.secretRef.name) = .ok secret)
    (keyless : secret.key p.secretRef = none) :
    ∃ exchange ∈ (p.serve Webhooks.githubPushHandler).1, exchange.1.IsPatch := by
  -- Without a key the signature is not looked at.
  obtain ⟨exchange, inside, patch⟩ := patches_trigger (p := p)
  refine ⟨exchange, ?_, patch⟩
  simp only [serve, Webhooks.githubPushHandler, getSource, getSecret, Program.play_call_bind,
    p.found, p.named, read, keyless]
  exact List.mem_cons_of_mem _ (List.mem_cons_of_mem _ inside)

/-- With the key at hand, a push whose signature is not verified is refused. -/
theorem failsClosed_of_key {secret : Secret} {key : List UInt8}
    (read : p.answer (.getSecret p.ns p.secretRef.name) = .ok secret)
    (has : secret.key p.secretRef = some key) : p.FailsClosed Webhooks.githubPushHandler := by
  rintro ⟨exchange, inside, patch⟩
  simp only [serve, Webhooks.githubPushHandler, getSource, getSecret, Program.play_call_bind,
    p.found, p.named, read, has] at inside
  split at inside
  · rename_i verified
    exact ⟨key, (keyAvailable_iff read).mpr has, verifySignature_iff.mp verified⟩
  · -- Neither of the two lookups is a patch.
    simp only [Program.play_pure, List.mem_cons, List.not_mem_nil, or_false] at inside
    rcases inside with rfl | rfl <;> cases patch

/-- A source is patched for authentic pushes only, and the two handlers agree, just where the secret
can be read and has the key. -/
theorem failClosedAlike_iff : p.FailClosedAlike ↔ ∃ key, p.KeyAvailable key := by
  -- Without a secret the one handler patches, without a key the other one does.
  constructor
  · intro closed
    rcases read : p.answer (.getSecret p.ns p.secretRef.name) with error | secret
    · obtain ⟨key, available, -⟩ := closed.apiServer (patches_apiServer_of_error read)
      exact ⟨key, available⟩
    · rcases has : secret.key p.secretRef with _ | key
      · obtain ⟨key, available, -⟩ := closed.webhooks (patches_webhooks_of_keyless read has)
        exact ⟨key, available⟩
      · exact ⟨key, (keyAvailable_iff read).mpr has⟩
  · rintro ⟨key, secret, read, has⟩
    have same := serve_eq_of_read read
    have webhooks := failsClosed_of_key read has
    refine ⟨fun patched => webhooks ?_, webhooks, congrArg Prod.snd same⟩
    rwa [← same]

end

/-- A source that names the secret of its webhook. -/
def guardedSource : FlakeSource :=
  { name := "web", labels := ∅
    spec :=
      { repo := "github:acme/web", branch := "main", pollInterval := "5m"
        webhookSecretRef := some ⟨"github", "webhook-secret"⟩
        outputs := [], atticCache := "main", buildOnCreate := true, extraArgs := [] } }

/-- A push without a signature to a source whose secret is not there. -/
def secretless : Push where
  ns := "builds"
  name := "web"
  headers := []
  body := []
  answer
    | .getSource _ _ => .ok guardedSource
    | .getSecret _ _ => .error "secrets \"github\" not found"
    | .now => ⟨0⟩
    | .patchSource _ _ _ => .ok ()
  source := guardedSource
  secretRef := ⟨"github", "webhook-secret"⟩
  found := rfl
  named := rfl

/-- A code that is the same for every message. -/
@[reducible] def plainHmac : HmacSha256 where
  newFromSlice _ := some fun _ => List.replicate 32 0

/-- A push is taken for authentic where the secret is missing, and only by one of the handlers. -/
theorem not_failClosedAlike : ¬ @FailClosedAlike secretless plainHmac epochText := by
  -- The answers of the two handlers are computed, and they differ.
  rintro ⟨-, -, codes⟩
  have api : (@serve secretless (@ApiServer.githubPushHandler plainHmac epochText)).2 = .ok := rfl
  have hooks : (@serve secretless (@Webhooks.githubPushHandler plainHmac epochText)).2 =
      .internalServerError := rfl
  rw [api, hooks] at codes
  cases codes

end Push

end Tatara.Operator
