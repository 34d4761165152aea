import PactJanus.Data.Json
import PactJanus.Lib.Affixes
import PactJanus.Lib.Effects
import PactJanus.Lib.Fallible
import PactJanus.Lib.Text

namespace PactJanus.Component.Oci

open PactJanus.Data PactJanus.Data.Json PactJanus.Lib PactJanus.Lib.Affixes PactJanus.Lib.Effects

/-! The pull of a component from a registry, through a cache that is not trusted. -/

/-- A component's reference, which names a tag or a digest. -/
structure Reference where
  registry : String
  repository : String
  tag : Option String
  digest : Option String
  named : tag.isSome ∨ digest.isSome

def Reference.display (reference : Reference) : String :=
  reference.registry ++ "/" ++ reference.repository ++ (reference.tag.map (":" ++ ·)).getD "" ++
    (reference.digest.map ("@" ++ ·)).getD ""

inductive Credentials where
  | basic (username password : String)
  | bearer (token : String)

structure ComponentError where
  code : String
  category : String
  message : String
  source : Option String
  details : Option Json

/-- A failure of the loader, not of the component. -/
def failure (code message : String) (details : Json) : ComponentError :=
  ⟨code, "component", message, some "engine", some details⟩

structure Response where
  status : Nat
  body : List UInt8

structure Descriptor where
  digest : String
  size : UInt64

structure Pulled where
  reference : Reference
  digest : String
  config : Json
  wasm : List UInt8

def configMediaType : String := "application/vnd.pact.janus.component.config.v1+json"
def artifactType : String := "application/vnd.pact.janus.component.v1"
def wasmMediaType : String := "application/wasm"
def manifestMediaType : String := "application/vnd.oci.image.manifest.v1+json"
def indexMediaType : String := "application/vnd.oci.image.index.v1+json"

/-- The ceiling on a manifest. -/
def maxManifestBytes : UInt64 := 4 * 1024 * 1024

def isAsciiHexDigit (c : Char) : Bool := c.isDigit || ('a' ≤ c && c ≤ 'f') || ('A' ≤ c && c ≤ 'F')

/-- `sha256:` and 64 hex digits, in lower case. -/
def checkDigest (digest : String) : Except String String :=
  let message := "'" ++ digest ++ "' is not a digest this engine checks: 'sha256:' and 64 hex digits"
  match stripPrefix "sha256:".toList digest.toList with
  | some hex => if hex.length = 64 ∧ hex.all isAsciiHexDigit then .ok (Text.toAsciiLowercase digest) else .error message
  | none => .error message

/-- What a pull meets outside itself: a registry and the files of a cache, in a world they may change, and the libraries
that hash and read JSON. -/
structure Host (σ : Type) where
  send : Reference → Option Credentials → String → String → σ → Except ComponentError Response × σ
  readToVec : UInt64 → Response → σ → Except String (List UInt8) × σ
  readToString : Response → σ → String × σ
  readFile : String → σ → Option (List UInt8) × σ
  writeFile : String → List UInt8 → σ → σ
  removeFile : String → σ → σ
  digest : List UInt8 → List UInt8
  fromSlice : List UInt8 → Except String Json

/-- The world, and what has been stored in the cache under which digest. -/
structure Ran (σ : Type) where
  world : σ
  stored : List (String × List UInt8)

abbrev Pull (σ α : Type) : Type := Effect (Ran σ) ComponentError α

variable {σ : Type} (host : Host σ)

def sha256 (bytes : List UInt8) : String :=
  "sha256:" ++ String.ofList ((host.digest bytes).flatMap fun b =>
    [hexDigit (b.toNat / 16), hexDigit (b.toNat % 16)])

def unreachableRegistry (reference : Reference) (why : String) : ComponentError :=
  failure "unavailable" ("'" ++ reference.display ++ "': " ++ why) (.object [("reference", .string reference.display)])

/-- A response with the status asked for; any other is an error, with what its body says. -/
def expect (reference : Reference) (response : Response) (doing : String) : Pull σ Response := fun s =>
  if response.status = 200 then (.done response, s)
  else
    let (body, world) := host.readToString response s.world
    let (code, why) :=
      if response.status = 401 ∨ response.status = 403 then ("unauthorized", "the registry refused access")
      else if response.status = 404 then ("not-found", "the registry has no such thing")
      else ("unavailable", "the registry answered")
    (.failed (failure code
      ("'" ++ reference.display ++ "': " ++ doing ++ ": " ++ why ++ " (" ++ response.status.repr ++ ") " ++ Text.trim body)
      (.object [("reference", .string reference.display), ("status", .number (.posInt (UInt64.ofNat response.status)))])),
      { s with world := world })

def request (reference : Reference) (auth : Option Credentials) (kind target : String) : Pull σ Response := fun s =>
  match host.send reference auth kind target s.world with
  | (.ok response, world) => expect host reference response ("fetching " ++ kind ++ "/" ++ target) { s with world := world }
  | (.error error, world) => (.failed error, { s with world := world })

/-- The body read up to one byte over a limit, which is added to it as a `u64`. -/
def readBody (reference : Reference) (kind target : String) (limit : UInt64) (response : Response) :
    Pull σ (List UInt8) := fun s =>
  if limit.toNat + 1 = 2 ^ 64 then (.panicked, s)
  else
    match host.readToVec (limit + 1) response s.world with
    | (.ok bytes, world) => (.done bytes, { s with world := world })
    | (.error error, world) =>
      (.failed (unreachableRegistry reference ("reading " ++ kind ++ "/" ++ target ++ ": " ++ error)), { s with world := world })

def fetch (reference : Reference) (auth : Option Credentials) (kind target : String) (limit : UInt64) :
    Pull σ (List UInt8) := do
  let response ← request host reference auth kind target
  readBody host reference kind target limit response

/-- The file of the cache a digest names. -/
def blobName (digest : String) : String :=
  String.ofList ((stripPrefix "sha256:".toList digest.toList).getD digest.toList)

/-- What the cache has for a digest, where it still hashes to it; else it is discarded. -/
def cached (digest : String) : Pull σ (Option (List UInt8)) := fun s =>
  match host.readFile (blobName digest) s.world with
  | (none, world) => (.done none, { s with world := world })
  | (some bytes, world) =>
    if sha256 host bytes = digest then (.done (some bytes), { s with world := world })
    else (.done none, { s with world := host.removeFile (blobName digest) world })

def store (digest : String) (bytes : List UInt8) : Pull σ Unit := fun s =>
  (.done (), ⟨host.writeFile (blobName digest) bytes s.world, s.stored ++ [(digest, bytes)]⟩)

/-- Fetched bytes, stored in the cache where they hash to the digest they were asked by. -/
def admitted (reference : Reference) (digest : String) (bytes : List UInt8) : Pull σ (List UInt8) :=
  if sha256 host bytes ≠ digest then
    Effect.fail (failure "digest-mismatch"
      ("'" ++ reference.display ++ "' served " ++ sha256 host bytes ++ " when asked for " ++ digest ++
        "; nothing was instantiated")
      (.object [("actual", .string (sha256 host bytes)), ("expected", .string digest),
        ("reference", .string reference.display)]))
  else do
    store host digest bytes
    return bytes

/-- Bytes by their digest: from the cache, else from the registry, checked and then cached. -/
def content (reference : Reference) (auth : Option Credentials) (digest kind : String) (limit : UInt64) :
    Pull σ (List UInt8) := do
  match ← cached host digest with
  | some bytes => return bytes
  | none =>
    let bytes ← fetch host reference auth kind digest limit
    admitted host reference digest bytes

def refuse {α : Type} (reference : Reference) (digest why : String) : Except ComponentError α :=
  .error <| failure "not-a-component" ("'" ++ reference.display ++ "' (" ++ digest ++ ") is not a Janus component: " ++ why)
    (.object [("digest", .string digest), ("reference", .string reference.display)])

def descriptor (value : Json) : Option Descriptor := do
  let digest ← (← Data.Json.get "digest" value) |> asStr
  let checked ← (checkDigest digest).toOption
  let size ← (← Data.Json.get "size" value) |> asUnsigned
  return ⟨checked, size⟩

def mediaTypeOf (value : Json) : Option String := (Data.Json.get "mediaType" value).bind asStr

/-- The layers of a manifest that are the component. -/
def wasmLayers (manifest : Json) : List Json :=
  (((Data.Json.get "layers" manifest).bind asArray).getD []).filter fun layer => mediaTypeOf layer = some wasmMediaType

/-- The config's and the one layer's descriptors of a component's manifest. -/
def parseManifest (bytes : List UInt8) (reference : Reference) (digest : String) :
    Except ComponentError (Descriptor × Descriptor) := do
  let manifest ← match host.fromSlice bytes with
    | .ok manifest => .ok manifest
    | .error error => refuse reference digest ("its manifest is not JSON (" ++ error ++ ")")
  match mediaTypeOf manifest with
  | none => pure ()
  | some other =>
    if other = manifestMediaType then pure ()
    else if other = indexMediaType then refuse reference digest "it is an image index"
    else refuse reference digest ("its manifest is '" ++ other ++ "'")
  let config := (Data.Json.get "config" manifest).getD .null
  let configType := (mediaTypeOf config).getD ""
  let artifact := (Data.Json.get "artifactType" manifest).bind asStr
  if configType ≠ configMediaType ∨ artifact.any (· ≠ artifactType) then
    refuse reference digest ("its artifact type is '" ++ artifact.getD configType ++ "'")
  let config ← match descriptor config with
    | some config => pure config
    | none => refuse reference digest "its config descriptor is malformed"
  match wasmLayers manifest with
  | [layer] =>
    match descriptor layer with
    | some layer => return (config, layer)
    | none => refuse reference digest "its layer descriptor is malformed"
  | layers =>
    refuse reference digest ("it has " ++ layers.length.repr ++ " '" ++ wasmMediaType ++ "' layers, and a component is exactly one")

def checkSize (reference : Reference) (blob : Descriptor) (bytes : List UInt8) : Except ComponentError Unit :=
  if bytes.length = blob.size.toNat then .ok ()
  else
    .error (failure "digest-mismatch"
      ("'" ++ reference.display ++ "': " ++ blob.digest ++ " is " ++ bytes.length.repr ++
        " bytes, and its descriptor says " ++ blob.size.toNat.repr)
      (.object [("digest", .string blob.digest), ("reference", .string reference.display)]))

/-- A blob of its descriptor's digest and size. -/
def blob (reference : Reference) (auth : Option Credentials) (blob : Descriptor) : Pull σ (List UInt8) := do
  let bytes ← content host reference auth blob.digest "blobs" blob.size
  Effect.ofExcept (checkSize reference blob bytes)
  return bytes

def readConfig (reference : Reference) (bytes : List UInt8) : Except ComponentError Json :=
  match host.fromSlice bytes with
  | .ok config => .ok config
  | .error error =>
    .error (failure "not-a-component"
      ("'" ++ reference.display ++ "' has a config blob that is not JSON: " ++ error)
      (.object [("reference", .string reference.display)]))

/-- A declared digest, if there is one, as this engine checks it. -/
def checkDeclared (reference : Reference) : Option String → Except ComponentError (Option String)
  | none => .ok none
  | some digest =>
    match checkDigest digest with
    | .ok checked => .ok (some checked)
    | .error message =>
      .error (failure "invalid-reference" message (.object [("reference", .string reference.display)]))

/-- The digest a component is pinned to: the declared one or the reference's own, which must agree. -/
def agreed (reference : Reference) (declared : Option String) : Except ComponentError (Option String) :=
  match reference.digest, declared with
  | some inline, some declared =>
    if inline ≠ declared then
      .error (failure "digest-mismatch"
        ("'" ++ reference.display ++ "' pins " ++ inline ++ ", and the declaration pins " ++ declared ++
          "; a component has one digest")
        (.object [("actual", .string inline), ("expected", .string declared), ("reference", .string reference.display)]))
    else .ok (some declared)
  | inline, declared => .ok (declared.or inline)

def pin (reference : Reference) (declared : Option String) : Except ComponentError (Option String) :=
  (checkDeclared reference declared).bind (agreed reference)

/-- The manifest of a pin, or of the tag where there is none. -/
def resolve (reference : Reference) (auth : Option Credentials) : Option String → Pull σ (String × List UInt8)
  | some pin => do
    let manifest ← content host reference auth pin "manifests" maxManifestBytes
    return (pin, manifest)
  | none =>
    match reference.tag with
    | none => Effect.panic
    | some tag => do
      let manifest ← fetch host reference auth "manifests" tag maxManifestBytes
      store host (sha256 host manifest) manifest
      return (sha256 host manifest, manifest)

def pull (reference : Reference) (declared : Option String) (auth : Option Credentials) : Pull σ Pulled := do
  let pin ← Effect.ofExcept (pin reference declared)
  let (digest, manifest) ← resolve host reference auth pin
  let (config, layer) ← Effect.ofExcept (parseManifest host manifest reference digest)
  let configBytes ← blob host reference auth config
  let config ← Effect.ofExcept (readConfig host reference configBytes)
  let wasm ← blob host reference auth layer
  return ⟨reference, digest, config, wasm⟩

/-! What each step leaves in the cache. -/

/-- Nothing is stored under a digest it does not hash to. -/
def StoredSound (s : Ran σ) : Prop := ∀ p ∈ s.stored, sha256 host p.2 = p.1

variable {host} {reference : Reference} {auth : Option Credentials} {s t : Ran σ}

private theorem keeps_world {α : Type} {m : Pull σ α} (h : ∀ s, (m s).2.stored = s.stored) :
    Effect.Keeps (StoredSound host) m := fun s hs => by
  rw [StoredSound, h s]
  exact hs

private theorem request_stored (kind target : String) (s : Ran σ) :
    (request host reference auth kind target s).2.stored = s.stored := by
  unfold request expect
  split
  · split
    · rfl
    · rfl
  · rfl

private theorem readBody_stored (kind target : String) (limit : UInt64) (response : Response) (s : Ran σ) :
    (readBody host reference kind target limit response s).2.stored = s.stored := by
  unfold readBody
  split
  · rfl
  · split
    · rfl
    · rfl

private theorem cached_stored (digest : String) (s : Ran σ) : (cached host digest s).2.stored = s.stored := by
  unfold cached
  split
  · rfl
  · split
    · rfl
    · rfl

private theorem keeps_fetch (kind target : String) (limit : UInt64) :
    Effect.Keeps (StoredSound host) (fetch host reference auth kind target limit) :=
  (keeps_world (request_stored kind target)).bind fun response => keeps_world (readBody_stored kind target limit response)

private theorem keeps_store {digest : String} {bytes : List UInt8} (h : sha256 host bytes = digest) :
    Effect.Keeps (StoredSound host) (store host digest bytes) := by
  intro s hs p hp
  rcases List.mem_append.1 hp with hp | hp
  · exact hs p hp
  · rw [List.mem_singleton.1 hp]
    exact h

private theorem keeps_admitted (digest : String) (bytes : List UInt8) :
    Effect.Keeps (StoredSound host) (admitted host reference digest bytes) := by
  unfold admitted
  split
  · exact Effect.keeps_fail _
  · rename_i hsame
    exact (keeps_store (not_not.1 hsame)).bind fun _ => Effect.keeps_done bytes

private theorem keeps_content (digest kind : String) (limit : UInt64) :
    Effect.Keeps (StoredSound host) (content host reference auth digest kind limit) := by
  refine (keeps_world (cached_stored digest)).bind fun found => ?_
  cases found with
  | some bytes => exact Effect.keeps_done bytes
  | none =>
    exact (keeps_fetch kind digest limit).bind fun bytes => keeps_admitted digest bytes

private theorem keeps_blob (b : Descriptor) : Effect.Keeps (StoredSound host) (blob host reference auth b) :=
  (keeps_content b.digest "blobs" b.size).bind fun bytes =>
    (Effect.keeps_ofExcept (checkSize reference b bytes)).bind fun _ => Effect.keeps_done bytes

private theorem keeps_resolve (pin : Option String) :
    Effect.Keeps (StoredSound host) (resolve host reference auth pin) := by
  cases pin with
  | some pin => exact (keeps_content pin "manifests" maxManifestBytes).bind fun manifest => Effect.keeps_done (pin, manifest)
  | none =>
    rw [resolve]
    split
    · exact Effect.keeps_panic
    · exact (keeps_fetch "manifests" _ maxManifestBytes).bind fun manifest =>
        (keeps_store rfl).bind fun _ => Effect.keeps_done (sha256 host manifest, manifest)

theorem keeps_pull (declared : Option String) : Effect.Keeps (StoredSound host) (pull host reference declared auth) :=
  (Effect.keeps_ofExcept _).bind fun pin => (keeps_resolve pin).bind fun (digest, _) =>
    (Effect.keeps_ofExcept _).bind fun (config, layer) => (keeps_blob config).bind fun _ =>
      (Effect.keeps_ofExcept _).bind fun config => (keeps_blob layer).bind fun wasm =>
        Effect.keeps_done (Pulled.mk reference digest config wasm)

/-! What a step that ends well has read. -/

private theorem sha256_of_cached {digest : String} {bytes : List UInt8}
    (h : cached host digest s = (.done (some bytes), t)) : sha256 host bytes = digest := by
  unfold cached at h
  split at h
  · simp at h
  · split at h
    · rename_i hsame
      obtain ⟨hbytes, -⟩ := Prod.mk.inj h
      obtain rfl := Option.some.inj (Outcome.done.inj hbytes)
      exact hsame
    · simp at h

theorem sha256_of_content {digest kind : String} {limit : UInt64} {bytes : List UInt8}
    (h : content host reference auth digest kind limit s = (.done bytes, t)) : sha256 host bytes = digest := by
  obtain ⟨found, u, hfound, h⟩ := Effect.bind_eq_done.1 h
  cases found with
  | some cachedBytes =>
    obtain ⟨rfl, -⟩ := Effect.done_eq_done.1 h
    exact sha256_of_cached hfound
  | none =>
    obtain ⟨fetched, v, -, h⟩ := Effect.bind_eq_done.1 h
    unfold admitted at h
    split at h
    · simp [Effect.fail] at h
    · rename_i hsame
      obtain ⟨_, w, -, h⟩ := Effect.bind_eq_done.1 h
      obtain ⟨rfl, -⟩ := Effect.done_eq_done.1 h
      exact not_not.1 hsame

private theorem blob_eq_done {b : Descriptor} {bytes : List UInt8} (h : blob host reference auth b s = (.done bytes, t)) :
    sha256 host bytes = b.digest ∧ bytes.length = b.size.toNat := by
  obtain ⟨found, u, hfound, h⟩ := Effect.bind_eq_done.1 h
  obtain ⟨_, v, hsize, h⟩ := Effect.bind_eq_done.1 h
  obtain ⟨rfl, -⟩ := Effect.done_eq_done.1 h
  refine ⟨sha256_of_content hfound, ?_⟩
  have hchecked := (Effect.ofExcept_eq_done.1 hsize).1
  unfold checkSize at hchecked
  split at hchecked
  · assumption
  · cases hchecked

private theorem resolve_eq_done {pin : Option String} {digest : String} {manifest : List UInt8}
    (h : resolve host reference auth pin s = (.done (digest, manifest), t)) :
    sha256 host manifest = digest ∧ ∀ d, pin = some d → digest = d := by
  cases pin with
  | some d =>
    obtain ⟨found, u, hfound, h⟩ := Effect.bind_eq_done.1 h
    obtain ⟨hpair, -⟩ := Effect.done_eq_done.1 h
    obtain ⟨rfl, rfl⟩ := Prod.mk.inj hpair
    exact ⟨sha256_of_content hfound, fun _ heq => Option.some.inj heq⟩
  | none =>
    unfold resolve at h
    cases htag : reference.tag with
    | none => simp [htag, Effect.panic] at h
    | some tag =>
      simp only [htag] at h
      obtain ⟨found, u, -, h⟩ := Effect.bind_eq_done.1 h
      obtain ⟨_, v, -, h⟩ := Effect.bind_eq_done.1 h
      obtain ⟨hpair, -⟩ := Effect.done_eq_done.1 h
      obtain ⟨rfl, rfl⟩ := Prod.mk.inj hpair
      exact ⟨rfl, fun _ heq => nomatch heq⟩

private theorem checkDeclared_eq_ok {declared checked : Option String} (h : checkDeclared reference declared = .ok checked) :
    ∀ d, declared = some d → ∃ c, checkDigest d = .ok c ∧ checked = some c := by
  rintro d rfl
  unfold checkDeclared at h
  dsimp only at h
  split at h
  · rename_i c hc
    exact ⟨c, hc, (Except.ok.inj h).symm⟩
  · cases h

private theorem agreed_eq_ok {declared pinned : Option String} (h : agreed reference declared = .ok pinned) :
    (∀ d, reference.digest = some d → pinned = some d) ∧ ∀ d, declared = some d → pinned = some d := by
  unfold agreed at h
  cases hinline : reference.digest with
  | none =>
    rw [hinline] at h
    obtain rfl : declared.or none = pinned := Except.ok.inj h
    exact ⟨fun _ heq => (nomatch heq), fun d hd => by rw [hd]; rfl⟩
  | some inline =>
    rw [hinline] at h
    cases declared with
    | none =>
      obtain rfl : some inline = pinned := Except.ok.inj h
      exact ⟨fun _ heq => heq, fun _ heq => nomatch heq⟩
    | some d =>
      dsimp only at h
      split at h
      · cases h
      · rename_i hsame
        obtain rfl := Except.ok.inj h
        exact ⟨fun _ heq => not_not.1 hsame ▸ heq, fun _ heq => heq⟩

/-- A pin is what the declaration and the reference name, as far as they do. -/
private theorem pin_eq_ok {declared pinned : Option String} (h : pin reference declared = .ok pinned) :
    (∀ d, reference.digest = some d → pinned = some d) ∧
      ∀ d, declared = some d → ∃ checked, checkDigest d = .ok checked ∧ pinned = some checked := by
  obtain ⟨checked, hchecked, hagreed⟩ := Fallible.bind_eq_ok h
  obtain ⟨hinline, hdeclared⟩ := agreed_eq_ok hagreed
  refine ⟨hinline, fun d hd => ?_⟩
  obtain ⟨c, hc, heq⟩ := checkDeclared_eq_ok hchecked d hd
  exact ⟨c, hc, hdeclared c heq⟩

/-! Where a size is too large to read one byte more. -/

private theorem cached_not_panicked (digest : String) : (cached host digest s).1 ≠ .panicked := by
  unfold cached
  split
  · simp
  · split
    · simp
    · simp

private theorem request_not_panicked (kind target : String) :
    (request host reference auth kind target s).1 ≠ .panicked := by
  unfold request expect
  split
  · split
    · simp
    · simp
  · simp

private theorem readBody_panicked {kind target : String} {limit : UInt64} {response : Response} :
    (readBody host reference kind target limit response s).1 = .panicked ↔ limit.toNat + 1 = 2 ^ 64 := by
  unfold readBody
  split
  · rename_i h
    exact iff_of_true rfl h
  · rename_i h
    refine iff_of_false ?_ h
    split
    · simp
    · simp

/-- A registry that answers for what the cache has not, with a size no byte can be added to. -/
def Unreadable (host : Host σ) (reference : Reference) (auth : Option Credentials) (kind digest : String) (limit : UInt64)
    (s : Ran σ) : Prop :=
  limit.toNat + 1 = 2 ^ 64 ∧ ∃ t response u,
    cached host digest s = (.done none, t) ∧ request host reference auth kind digest t = (.done response, u)

private theorem fetch_panicked {kind target : String} {limit : UInt64} :
    (fetch host reference auth kind target limit s).1 = .panicked ↔
      limit.toNat + 1 = 2 ^ 64 ∧ ∃ response u, request host reference auth kind target s = (.done response, u) := by
  rw [fetch, Effect.bind_panicked, or_iff_right (request_not_panicked kind target)]
  simp only [readBody_panicked]
  exact ⟨fun ⟨response, u, hrequest, hlimit⟩ => ⟨hlimit, response, u, hrequest⟩,
    fun ⟨hlimit, response, u, hrequest⟩ => ⟨response, u, hrequest, hlimit⟩⟩

private theorem admitted_not_panicked {digest : String} (bytes : List UInt8) :
    (admitted host reference digest bytes s).1 ≠ .panicked := by
  unfold admitted
  split
  · simp [Effect.fail]
  · simp [bind, Effect.andThen, store, pure, Effect.done]

private theorem content_panicked {digest kind : String} {limit : UInt64} :
    (content host reference auth digest kind limit s).1 = .panicked ↔
      Unreadable host reference auth kind digest limit s := by
  rw [content, Effect.bind_panicked, or_iff_right (cached_not_panicked digest), Unreadable]
  constructor
  · rintro ⟨found, t, hfound, h⟩
    cases found with
    | some bytes => simp [pure, Effect.done] at h
    | none =>
      rcases Effect.bind_panicked.1 h with hfetch | ⟨bytes, u, -, hafter⟩
      · obtain ⟨hlimit, response, u, hrequest⟩ := fetch_panicked.1 hfetch
        exact ⟨hlimit, t, response, u, hfound, hrequest⟩
      · exact absurd hafter (admitted_not_panicked bytes)
  · rintro ⟨hlimit, t, response, u, hfound, hrequest⟩
    exact ⟨none, t, hfound, Effect.bind_panicked.2 (Or.inl (fetch_panicked.2 ⟨hlimit, response, u, hrequest⟩))⟩

private theorem blob_panicked {b : Descriptor} :
    (blob host reference auth b s).1 = .panicked ↔ Unreadable host reference auth "blobs" b.digest b.size s := by
  rw [blob, Effect.bind_panicked, content_panicked]
  refine or_iff_left ?_
  rintro ⟨bytes, t, -, h⟩
  rcases Effect.bind_panicked.1 h with hsize | ⟨_, u, -, hafter⟩
  · exact Effect.ofExcept_not_panicked hsize
  · simp [pure, Effect.done] at hafter

private theorem resolve_not_panicked (pin : Option String) (h : pin.isSome ∨ reference.tag.isSome) :
    (resolve host reference auth pin s).1 ≠ .panicked := by
  have hlimit : ¬maxManifestBytes.toNat + 1 = 2 ^ 64 := by decide
  intro hpanic
  cases pin with
  | some pin =>
    rcases Effect.bind_panicked.1 hpanic with hcontent | ⟨manifest, t, -, hafter⟩
    · exact hlimit (content_panicked.1 hcontent).1
    · simp [pure, Effect.done] at hafter
  | none =>
    obtain ⟨tag, htag⟩ := Option.isSome_iff_exists.1 (h.resolve_left (by simp))
    unfold resolve at hpanic
    simp only [htag] at hpanic
    rcases Effect.bind_panicked.1 hpanic with hfetch | ⟨manifest, t, -, hafter⟩
    · exact hlimit (fetch_panicked.1 hfetch).1
    · simp [bind, Effect.andThen, store, pure, Effect.done] at hafter

private theorem pin_or_tag {declared pinned : Option String} (h : pin reference declared = .ok pinned) :
    pinned.isSome ∨ reference.tag.isSome := by
  rcases reference.named with htag | hdigest
  · exact Or.inr htag
  · obtain ⟨d, hd⟩ := Option.isSome_iff_exists.1 hdigest
    exact Or.inl (by rw [(pin_eq_ok h).1 d hd]; rfl)

/-! The whole pull. -/

/-- Where a pull has to read, of a manifest it has, a config or a layer of a size no byte can be added to. -/
def Oversized (host : Host σ) (reference : Reference) (declared : Option String) (auth : Option Credentials) (s : Ran σ) :
    Prop :=
  ∃ pinned digest manifest t config layer,
    pin reference declared = .ok pinned ∧ resolve host reference auth pinned s = (.done (digest, manifest), t) ∧
    parseManifest host manifest reference digest = .ok (config, layer) ∧
    (Unreadable host reference auth "blobs" config.digest config.size t ∨
      ∃ bytes json u, blob host reference auth config t = (.done bytes, u) ∧ readConfig host reference bytes = .ok json ∧
        Unreadable host reference auth "blobs" layer.digest layer.size u)

/-- A component is what its pins name, its manifest's descriptors and the digests of each say. -/
structure Verified (host : Host σ) (reference : Reference) (declared : Option String) (auth : Option Credentials)
    (s : Ran σ) (pulled : Pulled) : Prop where
  inline : ∀ d, reference.digest = some d → pulled.digest = d
  pinned : ∀ d, declared = some d → checkDigest d = .ok pulled.digest
  contents : ∃ pinned manifest t config layer bytes,
    pin reference declared = .ok pinned ∧
    resolve host reference auth pinned s = (.done (pulled.digest, manifest), t) ∧ sha256 host manifest = pulled.digest ∧
    parseManifest host manifest reference pulled.digest = .ok (config, layer) ∧
    sha256 host bytes = config.digest ∧ bytes.length = config.size.toNat ∧ host.fromSlice bytes = .ok pulled.config ∧
    sha256 host pulled.wasm = layer.digest ∧ pulled.wasm.length = layer.size.toNat

theorem verified_of_pull {declared : Option String} {pulled : Pulled}
    (h : pull host reference declared auth s = (.done pulled, t)) : Verified host reference declared auth s pulled := by
  obtain ⟨pinned, s₁, hpin', h⟩ := Effect.bind_eq_done.1 h
  obtain ⟨hpin, rfl⟩ := Effect.ofExcept_eq_done.1 hpin'
  obtain ⟨⟨digest, manifest⟩, s₂, hresolve, h⟩ := Effect.bind_eq_done.1 h
  obtain ⟨⟨config, layer⟩, s₃, hparse', h⟩ := Effect.bind_eq_done.1 h
  obtain ⟨hparse, rfl⟩ := Effect.ofExcept_eq_done.1 hparse'
  obtain ⟨bytes, s₄, hconfig, h⟩ := Effect.bind_eq_done.1 h
  obtain ⟨json, s₅, hjson', h⟩ := Effect.bind_eq_done.1 h
  obtain ⟨hjson, rfl⟩ := Effect.ofExcept_eq_done.1 hjson'
  obtain ⟨wasm, s₆, hwasm, h⟩ := Effect.bind_eq_done.1 h
  obtain ⟨rfl, rfl⟩ := Effect.done_eq_done.1 h
  obtain ⟨hdigest, hpinned⟩ := resolve_eq_done hresolve
  obtain ⟨hinline, hdeclared⟩ := pin_eq_ok hpin
  obtain ⟨hconfigDigest, hconfigSize⟩ := blob_eq_done hconfig
  obtain ⟨hwasmDigest, hwasmSize⟩ := blob_eq_done hwasm
  have hread : host.fromSlice bytes = .ok json := by
    unfold readConfig at hjson
    split at hjson
    · rename_i config hslice
      rw [hslice, Except.ok.inj hjson]
    · cases hjson
  refine ⟨fun d hd => hpinned d (hinline d hd), fun d hd => ?_, ?_⟩
  · obtain ⟨checked, hchecked, heq⟩ := hdeclared d hd
    rw [hchecked, hpinned checked heq]
  · exact ⟨pinned, manifest, s₂, config, layer, bytes, hpin, hresolve, hdigest, hparse, hconfigDigest, hconfigSize, hread,
      hwasmDigest, hwasmSize⟩

theorem pull_panicked {declared : Option String} :
    (pull host reference declared auth s).1 = .panicked ↔ Oversized host reference declared auth s := by
  rw [pull, Effect.bind_panicked, or_iff_right Effect.ofExcept_not_panicked]
  constructor
  · rintro ⟨pinned, s₁, hpin', h⟩
    obtain ⟨hpin, rfl⟩ := Effect.ofExcept_eq_done.1 hpin'
    obtain ⟨⟨digest, manifest⟩, s₂, hresolve, h⟩ :=
      (Effect.bind_panicked.1 h).resolve_left (resolve_not_panicked pinned (pin_or_tag hpin))
    obtain ⟨⟨config, layer⟩, s₃, hparse', h⟩ := (Effect.bind_panicked.1 h).resolve_left Effect.ofExcept_not_panicked
    obtain ⟨hparse, rfl⟩ := Effect.ofExcept_eq_done.1 hparse'
    refine ⟨pinned, digest, manifest, s₂, config, layer, hpin, hresolve, hparse, ?_⟩
    rcases Effect.bind_panicked.1 h with hconfig | ⟨bytes, s₄, hconfig, h⟩
    · exact Or.inl (blob_panicked.1 hconfig)
    · obtain ⟨json, s₅, hjson', h⟩ := (Effect.bind_panicked.1 h).resolve_left Effect.ofExcept_not_panicked
      obtain ⟨hjson, rfl⟩ := Effect.ofExcept_eq_done.1 hjson'
      rcases Effect.bind_panicked.1 h with hwasm | ⟨wasm, s₆, -, h⟩
      · exact Or.inr ⟨bytes, json, s₄, hconfig, hjson, blob_panicked.1 hwasm⟩
      · simp [pure, Effect.done] at h
  · rintro ⟨pinned, digest, manifest, s₂, config, layer, hpin, hresolve, hparse, h⟩
    refine ⟨pinned, s, Effect.ofExcept_eq_done.2 ⟨hpin, rfl⟩, Effect.bind_panicked.2 (Or.inr ⟨_, s₂, hresolve, ?_⟩)⟩
    refine Effect.bind_panicked.2 (Or.inr ⟨_, s₂, Effect.ofExcept_eq_done.2 ⟨hparse, rfl⟩, Effect.bind_panicked.2 ?_⟩)
    rcases h with hconfig | ⟨bytes, json, s₄, hconfig, hjson, hlayer⟩
    · exact Or.inl (blob_panicked.2 hconfig)
    · refine Or.inr ⟨bytes, s₄, hconfig, Effect.bind_panicked.2 (Or.inr ⟨json, s₄, ?_, ?_⟩)⟩
      · exact Effect.ofExcept_eq_done.2 ⟨hjson, rfl⟩
      · exact Effect.bind_panicked.2 (Or.inl (blob_panicked.2 hlayer))

/-- A pulled component is verified and the cache sound, whatever the registry and the cache answer; and a pull ends with a
component or an error exactly where no size it has to read by is too large. -/
theorem pull_iff (host : Host σ) (reference : Reference) (declared : Option String) (auth : Option Credentials) (world : σ) :
    (∀ pulled, (pull host reference declared auth ⟨world, []⟩).1 = .done pulled →
        Verified host reference declared auth ⟨world, []⟩ pulled) ∧
      StoredSound host (pull host reference declared auth ⟨world, []⟩).2 ∧
      (pull host reference declared auth ⟨world, []⟩).1 ≠ .panicked ↔
    ¬Oversized host reference declared auth ⟨world, []⟩ := by
  have hverified : ∀ pulled, (pull host reference declared auth ⟨world, []⟩).1 = .done pulled →
      Verified host reference declared auth ⟨world, []⟩ pulled := fun pulled h => verified_of_pull (Prod.ext h rfl)
  have hsound : StoredSound host (pull host reference declared auth ⟨world, []⟩).2 :=
    keeps_pull declared ⟨world, []⟩ (List.forall_mem_nil _)
  rw [and_iff_right hverified, and_iff_right hsound, ne_eq, pull_panicked]

/-- A blob's digest in a manifest. -/
def someDigest : String := "sha256:0123456789abcdef0123456789abcdef0123456789abcdef0123456789abcdef"

/-- A manifest whose config is said to have 2^64 − 1 bytes. -/
def oversizedManifest : Json :=
  .object [("mediaType", .string manifestMediaType),
    ("config", .object [("mediaType", .string configMediaType), ("digest", .string someDigest),
      ("size", .number (.posInt 18446744073709551615))]),
    ("layers", .array [.object [("mediaType", .string wasmMediaType), ("digest", .string someDigest),
      ("size", .number (.posInt 8))]])]

/-- A registry that answers every request, with nothing in the cache. -/
def generous : Host Unit where
  send := fun _ _ _ _ world => (.ok ⟨200, []⟩, world)
  readToVec := fun _ response world => (.ok response.body, world)
  readToString := fun _ world => ("", world)
  readFile := fun _ world => (none, world)
  writeFile := fun _ _ world => world
  removeFile := fun _ world => world
  digest := fun _ => List.replicate 32 0
  fromSlice := fun _ => .ok oversizedManifest

def tagged : Reference := ⟨"ghcr.io", "acme/janus-csv", some "1.2.0", none, Or.inl rfl⟩

theorem oversized_config_panics : (pull generous tagged none none ⟨(), []⟩).1 = .panicked := by rfl

end PactJanus.Component.Oci
