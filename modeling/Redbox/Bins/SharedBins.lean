import Redbox.Bins.BinLimits
import Redbox.Bytes.Utf8Text
import Redbox.Content.ContentLinks
import Redbox.Content.ContentServices
import Redbox.Interleaving.Knowledge
import Redbox.RateLimit.RateLimitService

/-! Sharing a bin: the service that keeps bins and makes their links, and the page that a link
opens. -/
namespace Redbox.BinSharing
open Bytes Interleaving

/-- What `createBin` inserts. -/
structure BinData where
  title : JsString
  content : JsString
  size : Nat
  userId : Id
  expiresAt : Option Time
  passwordHash : Option String
  encryptedBinKey : ByteString
  binKeyIv : ByteString

/-- A row. Columns in hexadecimal are the bytes here. -/
structure BinRow where
  id : List Char
  shareToken : List Char
  createdAt : Time
  data : BinData

inductive BinCall where
  | validate (userId : Id)
  | now
  | masterKey (userId : Id)
  | binCount (userId : Id)
  | randomBytes (size : Nat)
  | hash (password : JsString)
  | createBin (data : BinData)
  | findBins (userId : Id)
  | findBin (id : List Char)
  | deleteBin (id : List Char)
  | deleteExpired (before : Time)
  | assertAvailable (id : List Char) (clientIp : String)
  | compare (password : JsString) (hash : String)
  | consumeAttempt (id : List Char) (clientIp : String)
  | clearAttempts (id : List Char) (clientIp : String)

@[reducible] def BinCall.Answer : BinCall → Type
  | validate _ => Bool
  | now => Time
  | masterKey _ => Option ByteString
  | binCount _ => Nat
  | randomBytes _ => ByteString
  | hash _ => String
  | createBin _ => BinRow
  | findBins _ => List BinRow
  | findBin _ => Option BinRow
  | deleteExpired _ => Nat
  | compare _ _ => Bool
  | _ => Unit

/-- A call may throw 429. -/
def BinCall.limits : BinCall → Bool
  | assertAvailable _ _ | consumeAttempt _ _ => true
  | _ => false

abbrev BinReply (q : BinCall) : Type := Except LimitThrown q.Answer
abbrev BinRoutine (α : Type) := Prog BinCall BinReply LimitThrown α
abbrev BinEvent := Event BinCall BinReply

/-- Node's cipher, random bytes and UUIDs, bcrypt, and the master key that each user has for life.
-/
structure Config where
  binLimit : Nat
  aes256Cbc : ByteString → ByteString → ByteString → ByteString
  decipher : ByteString → ByteString → ByteString → Option ByteString
  randomBytes : Nat → Nat → ByteString
  uuid : Nat → List Char
  bcryptHash : JsString → Nat → String
  bcryptCompare : JsString → String → Bool
  masterKey : Id → ByteString

/-- What the service relies on. -/
structure Config.Sound (cfg : Config) : Prop where
  decipher : ∀ key iv data, key.length = 32 → iv.length = 16 →
    cfg.decipher key iv (cfg.aes256Cbc key iv data) = some data
  randomBytes : ∀ n size, (cfg.randomBytes n size).length = size
  masterKey : ∀ userId, (cfg.masterKey userId).length = 32
  uuid : ∀ n, ReportsService.isUuid (cfg.uuid n) = true

/-- The rows, and those that were ever inserted, and the users who have a session and a cached
master key. -/
structure Tables where
  clock : Time
  nextId : Id
  bins : List BinRow
  inserted : List BinRow
  signedIn : List Id
  cached : List Id

abbrev SharedTables := Shared BinCall BinReply Tables

inductive BinDelivery where
  | delivered | failed | lost | limited
  deriving DecidableEq

namespace Tables

def empty : Tables := ⟨0, 0, [], [], [], []⟩

def insert (cfg : Config) (s : Tables) (data : BinData) : Tables × BinRow :=
  let bin : BinRow := ⟨cfg.uuid s.nextId, cfg.uuid (s.nextId + 1), s.clock, data⟩
  ({ s with nextId := s.nextId + 2, bins := bin :: s.bins, inserted := bin :: s.inserted }, bin)

def expiredAt (t : Time) (bin : BinRow) : Bool := bin.data.expiresAt.any fun at' => decide (at' < t)

/-- `orderBy: { createdAt: 'desc' }` -/
def newestFirst (a b : BinRow) : Bool := decide (b.createdAt ≤ a.createdAt)

def perform (cfg : Config) (s : Tables) : (q : BinCall) → Tables × BinReply q
  | .validate userId => (s, .ok (s.signedIn.contains userId))
  | .now => (s, .ok s.clock)
  | .masterKey userId =>
    (s, .ok (if s.cached.contains userId then some (cfg.masterKey userId) else none))
  | .binCount userId => (s, .ok (s.bins.countP fun bin => bin.data.userId == userId))
  | .randomBytes size => ({ s with nextId := s.nextId + 1 }, .ok (cfg.randomBytes s.nextId size))
  | .hash password => ({ s with nextId := s.nextId + 1 }, .ok (cfg.bcryptHash password s.nextId))
  | .createBin data => ((s.insert cfg data).1, .ok (s.insert cfg data).2)
  | .findBins userId =>
    (s, .ok ((s.bins.filter fun bin => bin.data.userId == userId).mergeSort newestFirst))
  | .findBin id => (s, .ok (s.bins.find? (·.id == id)))
  | .deleteBin id =>
    if s.bins.any (·.id == id) then
      ({ s with bins := s.bins.filter fun bin => !(bin.id == id) }, .ok ())
    else (s, .error (.thrown (.fault .recordNotFound)))
  | .deleteExpired t =>
    ({ s with bins := s.bins.filter fun bin => !expiredAt t bin },
      .ok (s.bins.countP (expiredAt t)))
  | .compare password hash => (s, .ok (cfg.bcryptCompare password hash))
  | .assertAvailable _ _ => (s, .ok ())
  | .consumeAttempt _ _ => (s, .ok ())
  | .clearAttempts _ _ => (s, .ok ())

/-- A call fails before or after it took effect, meets the limit, or is answered. -/
def exec (cfg : Config) (d : BinDelivery) (q : BinCall) (s : Tables) : Tables × BinReply q :=
  match d with
  | .delivered => s.perform cfg q
  | .failed => (s, .error (.thrown (.fault .unavailable)))
  | .lost => ((s.perform cfg q).1, .error (.thrown (.fault .unavailable)))
  | .limited =>
    if q.limits then (s, .error (.exceeded RateLimitService.tooManyAttempts none))
    else s.perform cfg q

end Tables

/-- What goes on elsewhere: time passes, sessions begin and end, and cached keys run out. -/
inductive Elsewhere where
  | tick (n : Nat)
  | signIn (userId : Id)
  | signOut (userId : Id)
  | keyExpired (userId : Id)

def Tables.drift (s : Tables) : Elsewhere → Tables
  | .tick n => { s with clock := s.clock + n }
  | .signIn userId => { s with signedIn := userId :: s.signedIn, cached := userId :: s.cached }
  | .signOut userId =>
    { s with signedIn := s.signedIn.filter (· != userId), cached := s.cached.filter (· != userId) }
  | .keyExpired userId => { s with cached := s.cached.filter (· != userId) }

def await (q : BinCall) : BinRoutine q.Answer := Prog.await id q

/-- `/^[0-9a-fA-F]{64}$/` -/
def isBinKey (key : JsString) : Bool :=
  key.length == 64 && key.all fun u =>
    (0x30 ≤ u && u ≤ 0x39) || (0x61 ≤ u && u ≤ 0x66) || (0x41 ≤ u && u ≤ 0x46)

/-- The characters of a text without surrogates. -/
def charsOf (s : JsString) : List Char := s.map fun u => Char.ofNat u.toNat

def textOf (key : JsString) : String := String.ofList (charsOf key)

/-- The checks of `CreateBinDto`. -/
def valid (request : CreateBinRequest) : Bool :=
  !request.content.isEmpty && decide (request.content.codePoints.length ≤ 3000000) &&
  decide (1 ≤ request.size) && decide (request.size ≤ 3000000) &&
  request.title.all (fun t => decide (t.codePoints.length ≤ 100)) &&
  request.password.all (fun p => !p.isEmpty && decide (p.codePoints.length ≤ 100)) &&
  binExpiryOptions.any (fun o => request.expiresIn == JsString.ascii o) && isBinKey request.binKey

structure BinEntry where
  id : List Char
  title : JsString
  size : Nat
  createdAt : Time
  expiresAt : Option Time
  shareLink : List Char

structure BinContent where
  title : JsString
  content : JsString
  createdAt : Time
  expiresAt : Option Time

namespace BinsService
variable (cfg : Config)

def titleOf (title : Option JsString) : JsString :=
  (title.filter (· ≠ [])).getD (JsString.ascii "Untitled Bin")

def hashed (password : Option JsString) : BinRoutine (Option String) :=
  match password.filter (· ≠ []) with
  | some password => do return some (← await (.hash password))
  | none => .ret none

def createBin (userId : Id) (request : CreateBinRequest) : BinRoutine BinRow := do
  let some masterKey ← await (.masterKey userId) | throw (.thrown (unauthorized "Session expired"))
  let currentBinCount ← await (.binCount userId)
  Prog.throwIf (cfg.binLimit ≤ currentBinCount) (.thrown
    (badRequest ("You have reached your limit of " ++ toString cfg.binLimit ++ " bins.")))
  let binKeyIv ← await (.randomBytes 16)
  let passwordHash ← hashed request.password
  let now ← await .now
  await (.createBin
    { title := titleOf request.title, content := request.content, size := request.size
      userId := userId, expiresAt := BinsService.calculateExpiration now
        (binExpiryOptions.find? fun o => request.expiresIn == JsString.ascii o)
      passwordHash := passwordHash
      encryptedBinKey := cfg.aes256Cbc masterKey binKeyIv (ofText (textOf request.binKey))
      binKeyIv := binKeyIv })

def shareLink (bin : BinRow) (decryptedKey : String) : List Char :=
  "/b/".toList ++ bin.id ++ "?token=".toList ++ bin.shareToken ++ '#' :: decryptedKey.toList

def processed (masterKey : ByteString) (bin : BinRow) : BinEntry :=
  let decryptedKey := match cfg.decipher masterKey bin.data.binKeyIv bin.data.encryptedBinKey with
    | some bytes => toText bytes
    | none => "error"
  ⟨bin.id, bin.data.title, bin.data.size, bin.createdAt, bin.data.expiresAt,
    shareLink bin decryptedKey⟩

def getUserBins (userId : Id) : BinRoutine (List BinEntry) := do
  let some masterKey ← await (.masterKey userId) | throw (.thrown (unauthorized "Session expired"))
  let bins ← await (.findBins userId)
  return bins.map (processed cfg masterKey)

/-- The gate in front of a bin with a password. -/
def passwordGate (id : List Char) (passwordHash : Option String)
    (providedPassword : Option JsString) (clientIp : String) : BinRoutine Unit :=
  match passwordHash with
  | none => .ret ()
  | some hash =>
    match providedPassword.filter (· ≠ []) with
    | none => .throw (.thrown (forbidden "This bin is password protected"))
    | some password => do
      await (.assertAvailable id clientIp)
      let isMatch ← await (.compare password hash)
      if isMatch then await (.clearAttempts id clientIp)
      else
        await (.consumeAttempt id clientIp)
        throw (.thrown (forbidden "Incorrect password"))

def getBinContent (id token : List Char) (providedPassword : Option JsString) (clientIp : String) :
    BinRoutine BinContent := do
  let some bin ← await (.findBin id)
    | throw (.thrown (notFound "Bin not found or invalid token"))
  Prog.throwIf (bin.shareToken ≠ token) (.thrown (notFound "Bin not found or invalid token"))
  let now ← await .now
  if Tables.expiredAt now bin then
    await (.deleteBin bin.id)
    throw (.thrown (notFound "Bin has expired"))
  passwordGate bin.id bin.data.passwordHash providedPassword clientIp
  return ⟨bin.data.title, bin.data.content, bin.createdAt, bin.data.expiresAt⟩

def deleteBin (userId : Id) (id : List Char) : BinRoutine Unit := do
  let some bin ← await (.findBin id) | throw (.thrown (notFound "Bin not found"))
  Prog.throwIf (bin.data.userId ≠ userId) (.thrown (notFound "Bin not found"))
  await (.deleteBin id)

/-- The failure of the job is logged. -/
def handleCleanup : BinRoutine Unit := do
  try
    let now ← await .now
    let _ ← await (.deleteExpired now)
  catch _ => pure ()

end BinsService

/-- `JwtStrategy.validate`, in front of the requests of a user. -/
def authenticated {α : Type} (userId : Id) (request : BinRoutine α) : BinRoutine α := do
  let current ← await (.validate userId)
  Prog.throwIf (current = false) (.thrown (unauthorized "Unauthorized"))
  request

inductive BinOperation where
  | createBin (userId : Id) (request : CreateBinRequest)
  | getUserBins (userId : Id)
  | getBinContent (id token : List Char) (providedPassword : Option JsString) (clientIp : String)
  | deleteBin (userId : Id) (id : List Char)
  | handleCleanup

inductive BinOutcome where
  | created (bin : BinRow)
  | listed (entries : List BinEntry)
  | content (bin : BinContent)
  | done

def BinOperation.program (cfg : Config) : BinOperation → BinRoutine BinOutcome
  | createBin userId request => authenticated userId do
    Prog.throwIf (valid request = false) (.thrown (badRequest "Validation failed"))
    return .created (← BinsService.createBin cfg userId request)
  | getUserBins userId => authenticated userId do
    return .listed (← BinsService.getUserBins cfg userId)
  | getBinContent id token providedPassword clientIp => do
    return .content (← BinsService.getBinContent id token providedPassword clientIp)
  | deleteBin userId id => authenticated userId do
    BinsService.deleteBin userId id
    return .done
  | handleCleanup => do
    BinsService.handleCleanup
    return .done

def bins (cfg : Config) :
    System BinCall BinReply LimitThrown BinOutcome Tables BinOperation BinDelivery Elsewhere where
  exec := Tables.exec cfg
  drift := fun e s => s.drift e
  program := BinOperation.program cfg

abbrev BinRules := Rules BinCall BinReply Tables BinOperation BinDelivery Elsewhere

/-- The id of a bin that is inserted is not one that another bin has had. -/
def freshId (cfg : Config) (s : Tables) : BinCall → Bool
  | .createBin _ => !s.inserted.any (·.id == cfg.uuid s.nextId)
  | _ => true

/-- Any requests at any time, and any call may fail. UUIDs are unique. -/
def anyRequests (cfg : Config) : BinRules :=
  ⟨fun _ _ => true, fun s _ q _ => freshId cfg s.store q, fun _ _ => true⟩

/-! ### The page -/

/-- What the route `/b/:id` and the page read of an address: the id, the token and the key. -/
def BinView.params (url : Text.Url) : Option (String × Option String × List Char) :=
  match ReportsService.names url.pathname with
  | ["b", id] => (Text.decodeURIComponent id).map fun id =>
    (id, ReportsService.tokenOf url, url.hash.drop 1)
  | _ => none

inductive BinViewState where
  | error (errorMsg : String)
  | password (passwordError : String)
  | done (title plaintext : JsString) (expiresAt : Option Time)
  deriving DecidableEq

/-- How the request for a bin ended. -/
inductive BinResponse where
  | bin (content : BinContent)
  | status (code : Nat)
  | unreachable

namespace BinViewCard
variable (ciphers : BinCrypto.Ciphers) (made : CryptoKey → List Sealing)
  (malformed : ByteString → JsString)

/-- What `fetchAndDecrypt` shows in the end, once its request has its response. -/
def fetchAndDecrypt (id : String) (token : Option String) (keyHex : List Char)
    (pwd : Option JsString) (response : BinResponse) : BinViewState :=
  if id = "" ∨ token.filter (· ≠ "") = none then .error "Invalid link. Missing id or token."
  else if isBinKey (JsString.ofAscii keyHex) = false then
    .error "Invalid or missing decryption key in the URL fragment."
  else match response with
    | .bin content =>
      let text := (BinCrypto.importKey (JsString.ofAscii keyHex)).bind fun cryptoKey =>
        BinCrypto.decryptText ciphers made malformed cryptoKey (charsOf content.content)
      match text with
      | some text => .done
        (if content.title = [] then JsString.ascii "Untitled Bin" else content.title) text
          content.expiresAt
      | none => .error "Failed to decrypt. The key or content may be corrupted."
    | .status 403 => .password (if pwd.any (· ≠ []) then "Incorrect password." else "")
    | .status 404 => .error "This bin does not exist or has expired."
    | _ => .error "Failed to decrypt. The key or content may be corrupted."

end BinViewCard

end Redbox.BinSharing
