import Galactic.Lib.Client
import Galactic.Masque.Ledger
import Galactic.Net.Printed
import Galactic.ServicePlan.Programming

/-!
# The authority of `internal/edge/masque/authority`

The authority gives a connector's provider pod a time-limited authorization, an EdgeService, on the word of the
connector's grant record, a Secret. It reads the record and other objects and writes the EdgeService, without a
transaction over the two. The calls `Authorize`, `Refresh`, `Retire` and `Sweep` are programs that send one request
after the other. -/

namespace Galactic.Masque

open Net Client

/-! ### Grant records -/

structure Record where
  connector : String
  cell : String
  vpc : VPCRef
  revision : Int
  digest : String
  expires : Int
  enabled : Bool
  routes : List Prefix
deriving DecidableEq

/-- The Secret of a record: its name, its labels, and its data if that is the JSON text of a record. -/
structure Secret where
  name : String
  grant : Bool
  connector : String
  record : Option Record
deriving DecidableEq

inductive RecordError
  | connector (text : String)
  | required
  | digest
  | expiry
  | tooManyRoutes (n : Nat)
  | route (p : Prefix)
  | undecodable (secret : String)
  | misnamed (secret connector : String)
deriving DecidableEq

def maxRoutes : Nat := 64

/-- The zero `time.Time`, in nanoseconds since 1970. -/
def zeroTime : Int := -62135596800000000000

/-- A UUID in the form `uuid.UUID.String` gives. -/
def isUUID (text : String) : Bool :=
  text.length = 36 ∧ (text.toList.zipIdx.all fun (c, i) =>
    if i ∈ [8, 13, 18, 23] then c = '-' else ('0' ≤ c ∧ c ≤ '9') ∨ ('a' ≤ c ∧ c ≤ 'f'))

def Record.validate (r : Record) : Except RecordError Unit :=
  if isUUID r.connector = false then .error (.connector r.connector)
  else if r.cell = "" ∨ r.vpc.ns = "" ∨ r.vpc.name = "" ∨ r.vpc.uid = "" then .error .required
  else if r.digest.length ≠ 64 ∨ r.digest.toList.any (fun c => (hexVal c).isNone) then .error .digest
  else if r.expires = zeroTime ∨ r.revision < 1 then .error .expiry
  else if maxRoutes < r.routes.length then .error (.tooManyRoutes r.routes.length)
  else
    match r.routes.find? fun p => p.isValid = false ∨ p.addr.is6 = false ∨ p.addr.is4In6 = true ∨ p ≠ p.masked with
    | some p => .error (.route p)
    | none => .ok ()

def recordName (connector : String) : String := "masque-grant-" ++ connector

def decodeRecord (x : Secret) : Except RecordError Record :=
  match x.record with
  | none => .error (.undecodable x.name)
  | some r =>
    match r.validate with
    | .error e => .error e
    | .ok () =>
      if x.name ≠ recordName r.connector ∨ x.connector ≠ r.connector then .error
        (.misnamed x.name r.connector) else .ok r

def encodeRecord (r : Record) : Except RecordError Secret :=
  match r.validate with
  | .error e => .error e
  | .ok () => .ok ⟨recordName r.connector, true, r.connector, some r⟩

def digestOf (credential : String) : String := ServicePlan.hexEncode (Sha256.sum256 credential.toUTF8.toList).toList

/-- `wellFormed`: the base64url text of 32 bytes. The decoder skips line ends. -/
def wellFormed (credential : String) : Bool :=
  let text := credential.toList.filter fun c => c ≠ '\n' ∧ c ≠ '\r'
  text.length = 43 ∧ text.all fun c =>
    ('A' ≤ c ∧ c ≤ 'Z') ∨ ('a' ≤ c ∧ c ≤ 'z') ∨ ('0' ≤ c ∧ c ≤ '9') ∨ c = '-' ∨ c = '_'

/-! ### Objects and requests -/

/-- An EdgeService, as far as the authority reads and writes it: metadata, the labels, the annotations, the spec, and
the number of addresses core has allocated for it. -/
structure Service where
  ns : String
  name : String
  uid : Nat
  version : Nat
  deleting : Bool
  connector : String
  managed : Bool
  authorization : String
  pod : String
  nonce : String
  revision : String
  allocation : String
  cell : String
  retired : Bool
  retiredAt : Option Int
  provider : String
  vpcName : String
  vpcUID : String
  prefixes : List String
  clientPool : String
  validUntil : Option Int
  allocations : Nat
deriving DecidableEq

structure VPC where
  uid : String
  deleting : Bool
  id : String
deriving DecidableEq

/-- The answer to a `Get` or a `Delete`. -/
inductive Found (α : Type)
  | ok (a : α)
  | notFound
  | failed
deriving DecidableEq

/-- The answer to an `Update`. -/
inductive Written
  | ok (s : Service)
  | conflict
  | notFound
  | failed
deriving DecidableEq

/-- What the authority asks of the clock and the API server. -/
inductive Query
  | now
  | listSecrets
  | getSecret (name : String)
  | getVPC (ns name : String)
  | readLedger (vpcUID cell : String)
  | listServices (ns connector : Option String)
  | getService (ns name : String)
  | create (s : Service)
  | update (s : Service)
  | delete (s : Service)

abbrev Answer : Query → Type
  | .now => Int
  | .listSecrets => Option (List Secret)
  | .getSecret _ => Found Secret
  | .getVPC _ _ => Found VPC
  | .readLedger _ _ => Option Ledger
  | .listServices _ _ => Option (List Service)
  | .getService _ _ => Found Service
  | .create _ => Option Service
  | .update _ => Written
  | .delete _ => Found Unit

abbrev Api := Prog Query Answer

def now : Api Int := .ask .now .ret
def listSecrets : Api (Option (List Secret)) := .ask .listSecrets .ret
def getSecret (name : String) : Api (Found Secret) := .ask (.getSecret name) .ret
def getVPC (ns name : String) : Api (Found VPC) := .ask (.getVPC ns name) .ret
def readLedger (vpcUID cell : String) : Api (Option Ledger) := .ask (.readLedger vpcUID cell) .ret
def listServices (ns connector : Option String) : Api (Option (List Service)) := .ask (.listServices ns connector) .ret
def getService (ns name : String) : Api (Found Service) := .ask (.getService ns name) .ret
def create (s : Service) : Api (Option Service) := .ask (.create s) .ret
def update (s : Service) : Api Written := .ask (.update s) .ret
def delete (s : Service) : Api (Found Unit) := .ask (.delete s) .ret

/-! ### Errors and settings -/

inductive ErrorKind
  | unauthenticated
  | forbidden
  | invalid
  | unavailable
deriving DecidableEq, Repr

/-- What the text of an error says. -/
inductive Reason
  | notProvider
  | malformedNonce
  | outsideWindow (issued : Int)
  | malformedCredential
  | listRecords
  | unknownCredential
  | expired (connector : String)
  | expiresWithinSkew (connector : String)
  | disabled (connector : String)
  | otherCell (connector cell : String)
  | otherVPC (connector vpc : String)
  | vpcGone (selector : String)
  | readVPC (selector : String)
  | vpcReplaced (selector : String)
  | vpcUnnamed (selector : String)
  | readLedger
  | noAllocation (connector : String)
  | retiredAllocation (connector : String)
  | listServices (connector : String)
  | staleAuthorization (authorization : String)
  | releasing (connector : String)
  | create (ns name : String)
  | noValidUntil (ns name : String)
  | otherRevision (authorization : String) (revision : Int)
  | retiredOrExpired (authorization : String)
  | noRecord (connector : String)
  | readRecord (connector : String)
  | grantChanged (connector : String)
  | allocationChanged (connector : String)
  | rereadRecord (connector : String)
  | serviceGone (authorization : String)
  | readService (ns name : String)
  | otherService (ns name authorization : String)
  | renew (ns name : String)
  | retire (ns name : String)
  | rereadService (ns name : String)
  | keptChanging (ns name : String)
deriving DecidableEq, Repr

structure Error where
  kind : ErrorKind
  reason : Reason
deriving DecidableEq, Repr

structure ServiceAccount where
  ns : String
  name : String
deriving DecidableEq, Repr

structure Identity where
  serviceAccount : ServiceAccount
  podUID : String
deriving DecidableEq, Repr

structure ServiceRef where
  ns : String
  name : String
  uid : Nat
deriving DecidableEq, Repr

structure Grant where
  authorization : String
  connector : String
  allocation : String
  vpc : String
  vpcUID : String
  vpcID : String
  service : ServiceRef
  pfx : Prefix
  routes : List Prefix
  revision : Int
  notAfter : Int
deriving DecidableEq

structure AuthorizeRequest where
  credential : String
  vpc : String
  nonce : String
  issued : Int
deriving DecidableEq, Repr

structure Authority where
  provider : String
  providerServiceAccount : ServiceAccount
  cell : String
  ttl : Int
  issuerSkew : Int
  maxSkew : Int

def seconds (n : Int) : Int := n * 1000000000

def retryWindow : Int := seconds 10

def maxCallerSkew : Int := seconds 2

def nonceOK (nonce : String) : Bool :=
  16 ≤ nonce.length ∧ nonce.length ≤ 64 ∧ nonce.toList.all fun c =>
    ('A' ≤ c ∧ c ≤ 'Z') ∨ ('a' ≤ c ∧ c ≤ 'z') ∨ ('0' ≤ c ∧ c ≤ '9')

def formatInt (n : Int) : String := toString n

def authorizationID (connector : String) (revision : Int) (pod nonce : String) : String :=
  ServicePlan.hexEncode ((Sha256.sum256 (connector ++ "\x00" ++ formatInt revision ++ "\x00" ++ pod ++ "\x00" ++
    nonce).toUTF8.toList).toList.take 12)

def serviceName (connector : String) : String := "masque-" ++ connector

namespace Authority

variable (a : Authority)

def skew : Int := if 0 < a.maxSkew then a.maxSkew else seconds 2

def expired (s : Service) (now : Int) : Bool :=
  match s.validUntil with
  | none => true
  | some until_ => until_ - a.skew ≤ now

def deadline (start : Int) (r : Record) : Int :=
  truncateSecond (min r.expires (start + ((if a.ttl = 0 then seconds 30 else a.ttl) -
    (if a.issuerSkew = 0 then seconds 2 else a.issuerSkew))))

def current (r : Record) (now : Int) : Except Error Unit :=
  if r.expires ≤ now then .error ⟨.unauthenticated, .expired r.connector⟩
  else if r.enabled = false then .error ⟨.forbidden, .disabled r.connector⟩
  else if r.cell ≠ a.cell then .error ⟨.forbidden, .otherCell r.connector r.cell⟩
  else .ok ()

/-- `until`. -/
def validity (start : Int) (r : Record) : Except Error Int :=
  match a.current r start with
  | .error e => .error e
  | .ok () =>
    if a.deadline start r - a.skew ≤ start then .error ⟨.unauthenticated, .expiresWithinSkew r.connector⟩
    else .ok (a.deadline start r)

def caller (id : Identity) : Except Error Unit :=
  if id.podUID = "" ∨ id.serviceAccount ≠ a.providerServiceAccount then .error ⟨.unauthenticated, .notProvider⟩
  else .ok ()

end Authority

/-! ### Reading -/

/-- `match`: the record of a credential. -/
def matchRecord (credential : String) : Api (Except Error Record) :=
  if wellFormed credential = false then pure (.error ⟨.unauthenticated, .malformedCredential⟩)
  else do
    match ← listSecrets with
    | none => pure (.error ⟨.unavailable, .listRecords⟩)
    | some list =>
      -- malformed records are skipped, and of several that match the last is taken
      match (list.filterMap fun x => (decodeRecord x).toOption).reverse.find? (·.digest = digestOf credential) with
      | none => pure (.error ⟨.unauthenticated, .unknownCredential⟩)
      | some r => pure (.ok r)

/-- What `readRecord` finds: a record, none, or one that cannot be read. -/
def readRecord (connector : String) : Api (Found Record) := do
  match ← getSecret (recordName connector) with
  | .notFound => pure .notFound
  | .failed => pure .failed
  | .ok x =>
    match decodeRecord x with
    | .error _ => pure .failed
    | .ok r => pure (.ok r)

/-- `vpc`: the identifier of the record's VPC. -/
def vpcID (ref : VPCRef) : Api (Except Error String) := do
  match ← getVPC ref.ns ref.name with
  | .notFound => pure (.error ⟨.forbidden, .vpcGone ref.selector⟩)
  | .failed => pure (.error ⟨.unavailable, .readVPC ref.selector⟩)
  | .ok v =>
    if v.uid ≠ ref.uid ∨ v.deleting = true then pure (.error ⟨.forbidden, .vpcReplaced ref.selector⟩)
    else if v.id = "" then pure (.error ⟨.unavailable, .vpcUnnamed ref.selector⟩)
    else pure (.ok v.id)

def allocationOf (r : Record) : Api (Except Error Entry) := do
  match ← readLedger r.vpc.uid r.cell with
  | none => pure (.error ⟨.unavailable, .readLedger⟩)
  | some l =>
    match l.lookup r.connector with
    | none => pure (.error ⟨.forbidden, .noAllocation r.connector⟩)
    | some e => if e.retired then pure (.error ⟨.forbidden, .retiredAllocation r.connector⟩) else pure (.ok e)

/-- `service`: the EdgeService of an authorization of the calling pod. -/
def readService (id : Identity) (auth : String) (ref : ServiceRef) : Api (Except Error Service) := do
  match ← getService ref.ns ref.name with
  | .notFound => pure (.error ⟨.forbidden, .serviceGone auth⟩)
  | .failed => pure (.error ⟨.unavailable, .readService ref.ns ref.name⟩)
  | .ok s =>
    if s.uid ≠ ref.uid ∨ s.managed = false ∨ s.authorization ≠ auth ∨ s.pod ≠ id.podUID ∨ s.deleting = true then
      pure (.error ⟨.forbidden, .otherService ref.ns ref.name auth⟩)
    else pure (.ok s)

/-! ### Writing -/

def Service.renewed (s : Service) (until_ : Int) : Service := { s with validUntil := some until_ }

/-- `renew`: the service as it is afterwards, and the error. -/
def renew (s : Service) (until_ : Int) : Api (Service × Option Error) :=
  if s.validUntil = some until_ then pure (s, none)
  else do
    match ← update (s.renewed until_) with
    | .ok s' => pure (s', none)
    | _ => pure (s.renewed until_, some ⟨.unavailable, .renew s.ns s.name⟩)

def Service.ended (s : Service) (at_ past : Int) : Service :=
  { s with
    retired := true
    retiredAt := some at_
    validUntil := if s.validUntil.all (past < ·) then some past else s.validUntil }

/-- The loop of `retire`: the service as it is afterwards, and the error. -/
def retireLoop : Nat → Service → Api (Service × Option Error)
  | 0, s => pure (s, some ⟨.unavailable, .keptChanging s.ns s.name⟩)
  | n + 1, s =>
    if s.retired then pure (s, none)
    else do
      let at_ ← now
      let t ← now
      match ← update (s.ended at_ (truncateSecond (t - seconds 60))) with
      | .ok s' => pure (s', none)
      | .conflict =>
        match ← getService s.ns s.name with
        | .ok s' =>
          if s'.uid ≠ s.uid then pure (s', some ⟨.unavailable, .rereadService s.ns s.name⟩) else retireLoop n s'
        | _ => pure (s.ended at_ (truncateSecond (t - seconds 60)), some ⟨.unavailable, .rereadService s.ns s.name⟩)
      | _ => pure (s.ended at_ (truncateSecond (t - seconds 60)), some ⟨.unavailable, .retire s.ns s.name⟩)

def retire (s : Service) : Api (Service × Option Error) := retireLoop conflictRetries s

def ending (s : Service) : Api (Service × Option Error) := if s.retired then pure (s, none) else retire s

/-- The service was retired less than `RetryWindow` ago. -/
def retiredLately (s : Service) : Api Bool :=
  match s.retiredAt with
  | none => pure false
  | some at_ => do
    let t ← now
    pure (decide (t < at_ + retryWindow))

/-- `reap`: whether the service is gone, if the API server says so. -/
def reap (s : Service) : Api (Option Bool) :=
  if s.retired = false ∨ 0 < s.allocations then pure (some false)
  else do
    if ← retiredLately s then pure (some false)
    else do
      match ← delete s with
      | .failed => pure none
      | _ => pure (some true)

def grantOf (s : Service) (r : Record) (e : Entry) (vpcID : String) : Except Error Grant :=
  match s.validUntil with
  | none => .error ⟨.unavailable, .noValidUntil s.ns s.name⟩
  | some notAfter => .ok ⟨s.authorization, r.connector, e.allocation, r.vpc.selector, r.vpc.uid, vpcID,
      ⟨s.ns, s.name, s.uid⟩, e.pfx, r.routes, r.revision, notAfter⟩

def Record.sameGrant (r cur : Record) : Bool := cur.revision = r.revision ∧ cur.enabled = true ∧ cur.digest = r.digest

/-- `unchanged`: retires the service if the record changed. -/
def unchanged (s : Service) (r : Record) : Api (Service × Option Error) := do
  match ← readRecord r.connector with
  | .ok cur =>
    if r.sameGrant cur then pure (s, none)
    else do
      let (s, _) ← retire s
      pure (s, some ⟨.forbidden, .grantChanged r.connector⟩)
  | .notFound => do
    let (s, _) ← retire s
    pure (s, some ⟨.forbidden, .grantChanged r.connector⟩)
  | .failed => do
    let (s, _) ← retire s
    pure (s, some ⟨.unavailable, .rereadRecord r.connector⟩)

namespace Authority

variable (a : Authority)

/-! ### `Authorize` -/

def newService (id : Identity) (r : Record) (e : Entry) (nonce : String) (until_ : Int) : Service where
  ns := r.vpc.ns
  name := serviceName r.connector
  uid := 0
  version := 0
  deleting := false
  connector := r.connector
  managed := true
  authorization := authorizationID r.connector r.revision id.podUID nonce
  pod := id.podUID
  nonce := nonce
  revision := formatInt r.revision
  allocation := e.allocation
  cell := a.cell
  retired := false
  retiredAt := none
  provider := a.provider
  vpcName := r.vpc.name
  vpcUID := r.vpc.uid
  prefixes := [e.pfx.string]
  clientPool := e.pool.string
  validUntil := some until_
  allocations := 0

def issue (id : Identity) (r : Record) (e : Entry) (vpcID nonce : String) (until_ : Int) : Api (Except Error Grant) :=
  do
  match ← create (a.newService id r e nonce until_) with
  | none => pure (.error ⟨.unavailable, .create r.vpc.ns (serviceName r.connector)⟩)
  | some s => do
    match ← unchanged s r with
    | (_, some e) => pure (.error e)
    | (s, none) => pure (grantOf s r e vpcID)

def renewable (id : Identity) (r : Record) (s : Service) : Bool :=
  s.retired = false ∧ s.pod = id.podUID ∧ s.revision = formatInt r.revision

/-- The loop that looks for an authorization to renew. -/
def findRenewable (id : Identity) (r : Record) : List Service → Api (Option Service)
  | [] => pure none
  | s :: ss =>
    if renewable id r s then do
      let t ← now
      if a.expired s t then findRenewable id r ss else pure (some s)
    else findRenewable id r ss

/-- The loop that ends the other authorizations: how many are still being released. -/
def drain : List Service → Api (Except Error Nat)
  | [] => pure (.ok 0)
  | s :: ss => do
    match ← ending s with
    | (_, some e) => pure (.error e)
    | (s, none) => do
      let released ← reap s
      match ← drain ss with
      | .error e => pure (.error e)
      | .ok n => pure (.ok (if released = some true then n else n + 1))

def retry (r : Record) (e : Entry) (vpcID : String) (s : Service) : Api (Except Error Grant) :=
  if s.retired then pure (.error ⟨.forbidden, .staleAuthorization s.authorization⟩)
  else do
    let t ← now
    if a.expired s t ∨ s.revision ≠ formatInt r.revision ∨ s.allocation ≠ e.allocation then
      pure (.error ⟨.forbidden, .staleAuthorization s.authorization⟩)
    else pure (grantOf s r e vpcID)

/-- `Authorize` once it has listed the connector's services. -/
def authorizeListed (id : Identity) (nonce : String) (r : Record) (until_ : Int) (vpcID : String) (e : Entry)
    (list : List Service) : Api (Except Error Grant) :=
  match list.find? fun s => s.nonce = nonce ∧ s.pod = id.podUID with
  | some s => a.retry r e vpcID s
  | none => do
    match ← a.findRenewable id r list with
    | some s => do
      match ← renew s until_ with
      | (_, some err) => pure (.error err)
      | (s, none) => pure (grantOf s r e vpcID)
    | none => do
      match ← drain list with
      | .error err => pure (.error err)
      | .ok draining =>
        if 0 < draining then pure (.error ⟨.unavailable, .releasing r.connector⟩)
        else a.issue id r e vpcID nonce until_

/-- `Authorize` once it has the record. -/
def authorizeRecord (id : Identity) (req : AuthorizeRequest) (start : Int) (r : Record) : Api (Except Error Grant) :=
  match a.validity start r with
  | .error e => pure (.error e)
  | .ok until_ =>
    if req.vpc ≠ r.vpc.selector then pure (.error ⟨.forbidden, .otherVPC r.connector req.vpc⟩)
    else do
      match ← vpcID r.vpc with
      | .error e => pure (.error e)
      | .ok vpc => do
        match ← allocationOf r with
        | .error e => pure (.error e)
        | .ok e => do
          match ← listServices (some r.vpc.ns) (some r.connector) with
          | none => pure (.error ⟨.unavailable, .listServices r.connector⟩)
          | some list => a.authorizeListed id req.nonce r until_ vpc e list

def authorize (id : Identity) (req : AuthorizeRequest) : Api (Except Error Grant) :=
  match a.caller id with
  | .error e => pure (.error e)
  | .ok () =>
    if nonceOK req.nonce = false then pure (.error ⟨.invalid, .malformedNonce⟩)
    else do
      let start ← now
      if req.issued < start - retryWindow ∨ start + maxCallerSkew < req.issued then
        pure (.error ⟨.invalid, .outsideWindow req.issued⟩)
      else do
        match ← matchRecord req.credential with
        | .error e => pure (.error e)
        | .ok r => a.authorizeRecord id req start r

/-! ### `Refresh`, `Retire` and `Sweep` -/

/-- `revalidate` from its write on. -/
def prolong (s : Service) (r : Record) (e : Entry) (vpc : String) (until_ : Int) :
    Api (Service × Except Error Grant) := do
  match ← renew s until_ with
  | (s, some err) => pure (s, .error err)
  | (s, none) => do
    match ← unchanged s r with
    | (s, some err) => pure (s, .error err)
    | (s, none) => pure (s, grantOf s r e vpc)

/-- `revalidate` once it has the record: the service as it is afterwards, and the result. -/
def revalidateRecord (s : Service) (revision start : Int) (r : Record) : Api (Service × Except Error Grant) :=
  match a.current r start with
  | .error e => pure (s, .error e)
  | .ok () =>
    if r.revision ≠ revision ∨ r.vpc.uid ≠ s.vpcUID then pure (s, .error ⟨.forbidden, .grantChanged s.connector⟩)
    else do
      match ← vpcID r.vpc with
      | .error e => pure (s, .error e)
      | .ok vpc => do
        match ← allocationOf r with
        | .error e => pure (s, .error e)
        | .ok e =>
          if e.allocation ≠ s.allocation ∨ s.prefixes ≠ [e.pfx.string] ∨ s.clientPool ≠ e.pool.string then
            pure (s, .error ⟨.forbidden, .allocationChanged s.connector⟩)
          else
            match a.validity start r with
            | .error err => pure (s, .error err)
            | .ok until_ => prolong s r e vpc until_

def revalidate (s : Service) (revision start : Int) : Api (Service × Except Error Grant) := do
  match ← readRecord s.connector with
  | .notFound => pure (s, .error ⟨.forbidden, .noRecord s.connector⟩)
  | .failed => pure (s, .error ⟨.unavailable, .readRecord s.connector⟩)
  | .ok r => a.revalidateRecord s revision start r

/-- `Refresh` once it has the service. -/
def refreshService (auth : String) (revision start : Int) (s : Service) : Api (Except Error Grant) :=
  if s.revision ≠ formatInt revision then pure (.error ⟨.forbidden, .otherRevision auth revision⟩)
  else if s.retired = true ∨ a.expired s start = true then do
    let _ ← retire s
    pure (.error ⟨.forbidden, .retiredOrExpired auth⟩)
  else do
    match ← a.revalidate s revision start with
    | (_, .ok g) => pure (.ok g)
    | (s, .error e) =>
      if e.kind = .unavailable then pure (.error e)
      else do
        let _ ← retire s
        pure (.error e)

def refresh (id : Identity) (auth : String) (revision : Int) (ref : ServiceRef) : Api (Except Error Grant) :=
  match a.caller id with
  | .error e => pure (.error e)
  | .ok () => do
    let start ← now
    match ← readService id auth ref with
    | .error e => pure (.error e)
    | .ok s => a.refreshService auth revision start s

def retireCall (id : Identity) (auth : String) (ref : ServiceRef) : Api (Except Error Unit) :=
  match a.caller id with
  | .error e => pure (.error e)
  | .ok () => do
    let cur ← getService ref.ns ref.name
    let gone := match cur with
      | .notFound => true
      | .failed => false
      | .ok s => decide (s.uid ≠ ref.uid)
    if gone then pure (.ok ())
    else do
      match ← readService id auth ref with
      | .error e => pure (.error e)
      | .ok s => do
        match ← retire s with
        | (_, some e) => pure (.error e)
        | (_, none) => pure (.ok ())

inductive SweepError
  | listRecords
  | listServices
  | retire (e : Error)
  | delete (ns name : String)
deriving DecidableEq

/-- `Sweep` has a reason to retire the service. -/
def swept (records : List Record) (now : Int) (s : Service) : Bool :=
  match records.reverse.find? (·.connector = s.connector) with
  | none => true
  | some r => (a.current r now).toOption.isNone ∨ formatInt r.revision ≠ s.revision ∨ a.expired s now

/-- A turn of the loop of `Sweep`. -/
def sweepService (records : List Record) (now : Int) (s : Service) : Api (Option SweepError) :=
  if s.provider ≠ a.provider ∨ s.cell ≠ a.cell then pure none
  else if s.retired = false ∧ a.swept records now s = false then pure none
  else do
    match ← ending s with
    | (_, some e) => pure (some (.retire e))
    | (s, none) => do
      match ← reap s with
      | none => pure (some (.delete s.ns s.name))
      | some _ => pure none

def sweepServices (records : List Record) (now : Int) : List Service → Api (List SweepError)
  | [] => pure []
  | s :: ss => do
    let e ← a.sweepService records now s
    let es ← sweepServices records now ss
    pure (e.toList ++ es)

def sweep : Api (List SweepError) := do
  match ← listSecrets with
  | none => pure [.listRecords]
  | some secrets => do
    match ← listServices none none with
    | none => pure [.listServices]
    | some services => do
      let t ← now
      a.sweepServices (secrets.filterMap fun x => (decodeRecord x).toOption) t services

end Authority

end Galactic.Masque
