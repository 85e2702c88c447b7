import Redbox.Download.StreamingDownloadService
import Redbox.Files.FileTransactions
import Redbox.Text.UriComponent
import Redbox.Text.JsString

/-! A download described twice: by `FilesService` and `FilesController` on the server, and by
the checks of `DownloadService.ts` in the browser. -/
namespace Redbox
open Text

/-- What `JSON.parse` gives. A list is an object without the fields that are asked for; the
other values are `null` and numbers that are no integers. -/
inductive JsValue where
  | undefined
  | bool (b : Bool)
  | int (n : Int)
  | string (s : String)
  | object (fields : List (String × JsValue))
  | other

structure CompleteUploadRequest where
  fileName : String
  totalChunks : Nat
  mimetype : Option String
  fileKey : String

namespace CompleteUploadRequest

/-- The checks of the validation pipe. `Length` counts a surrogate pair as one character. -/
def valid (dto : CompleteUploadRequest) : Bool :=
  decide (1 ≤ dto.fileName.length ∧ dto.fileName.length ≤ 100) && decide (1 ≤ dto.totalChunks ∧
    dto.totalChunks ≤ 1024) &&
  dto.mimetype.all (fun m => decide (1 ≤ m.length ∧ m.length ≤ 100)) &&
  decide (dto.fileKey.length = 64) && dto.fileKey.toList.all fun c => (hexValue c).isSome

/-- The arguments that the controller hands on. -/
def dto (request : CompleteUploadRequest) : CompleteUploadDto :=
  ⟨request.fileName, request.mimetype.getD "application/octet-stream", request.fileKey,
    request.totalChunks⟩

end CompleteUploadRequest

def fileEncryptionFormat : String := "aes-gcm-chunked-v1-or-aad-v2"

/-- The object that `getDownloadMetadata` returns. -/
structure FileMetadata where
  fileName : String
  mimeType : String
  plaintextSize : Nat
  encryptedSize : Nat
  chunkSize : Nat
  chunkCount : Nat
  encryptionOverhead : Nat
  format : String
  passwordProtected : Bool

/-- The object as the browser parses it. -/
def FileMetadata.json (m : FileMetadata) : JsValue :=
  .object [("fileName", .string m.fileName), ("mimeType", .string m.mimeType),
    ("plaintextSize", .int m.plaintextSize),
    ("encryptedSize", .int m.encryptedSize), ("chunkSize", .int m.chunkSize),
    ("chunkCount", .int m.chunkCount),
    ("encryptionOverhead", .int m.encryptionOverhead), ("format", .string m.format),
    ("passwordProtected", .bool m.passwordProtected)]

inductive DownloadHeader where
  | contentType | contentLength | contentDisposition | format | plaintextLength | chunkSize | chunkCount
  | encryptionOverhead | mimeType | cacheControl | contentTypeOptions
  deriving DecidableEq

/-- The name under which the browser asks for the header. -/
def DownloadHeader.name : DownloadHeader → String
  | contentType => "content-type"
  | contentLength => "content-length"
  | contentDisposition => "content-disposition"
  | format => "x-redbox-format"
  | plaintextLength => "x-redbox-plaintext-length"
  | chunkSize => "x-redbox-chunk-size"
  | chunkCount => "x-redbox-chunk-count"
  | encryptionOverhead => "x-redbox-encryption-overhead"
  | mimeType => "x-redbox-mime-type"
  | cacheControl => "cache-control"
  | contentTypeOptions => "x-content-type-options"

namespace FilesService

/-- `getDownloadMetadata`, once the row is found and the password accepted. -/
def getDownloadMetadata (file : File) : Except Thrown FileMetadata := do
  let encryptedSize ← getExpectedEncryptedSize file.size
  return {
    fileName := file.originalName
    mimeType := file.mimetype
    plaintextSize := file.size
    encryptedSize := encryptedSize
    chunkSize := plaintextChunkSizeBytes
    chunkCount := chunkCount file.size
    encryptionOverhead := encryptedChunkOverheadBytes
    format := fileEncryptionFormat
    passwordProtected := file.passwordHash.any (· ≠ "") }

end FilesService

namespace FilesController

/-- `replace(/[^\w.\-]/g, '_')`, once for each code unit. -/
def safeName (fileName : String) : String :=
  String.ofList (fileName.toList.flatMap fun c =>
    if c.isAlphanum || c == '_' || c == '.' || c == '-' then [c]
    else if c.toNat < 0x10000 then ['_']
    else ['_', '_'])

/-- The headers that `streamDownload` sets for a file whose stored length is right. -/
def downloadHeaders (file : File) : Except Thrown (List (DownloadHeader × String)) := do
  let encryptedSize ← FilesService.getExpectedEncryptedSize file.size
  let encodedName := encodeURIComponent file.originalName
  return [
    (.contentType, "application/octet-stream"),
    (.contentLength, toString encryptedSize),
    (.contentDisposition,
      "attachment; filename=\"" ++ safeName file.originalName ++ "\"; filename*=UTF-8''" ++
        encodedName),
    (.format, fileEncryptionFormat),
    (.plaintextLength, toString file.size),
    (.chunkSize, toString plaintextChunkSizeBytes),
    (.chunkCount, toString (chunkCount file.size)),
    (.encryptionOverhead, toString encryptedChunkOverheadBytes),
    (.mimeType, encodeURIComponent file.mimetype),
    (.cacheControl, "private, no-store, no-transform"),
    (.contentTypeOptions, "nosniff")]

end FilesController

namespace DownloadService

def maxFileChunks : Nat := (maxPlaintextFileSize + fileChunkSize - 1) / fileChunkSize
def fileStreamFormat : String := "aes-gcm-chunked-v1-or-aad-v2"

/-- `if (!p) throw new Error(e)`, keeping the evidence. -/
def require (p : Prop) [Decidable p] (e : String) : Except String (PLift p) :=
  if h : p then .ok ⟨h⟩ else .error e

def property (fields : List (String × JsValue)) (key : String) : JsValue :=
  (fields.lookup key).getD .undefined

def requireSafeInteger (value : JsValue) (name : String) (min max : Nat) :
    Except String { n : Nat // min ≤ n ∧ n ≤ max } :=
  match value with
  | .int n =>
    if h : n.natAbs ≤ maxSafeInteger ∧ (min : Int) ≤ n ∧ n ≤ max then .ok ⟨n.toNat, by omega⟩
    else .error ("Invalid " ++ name ++ " in download metadata.")
  | _ => .error ("Invalid " ++ name ++ " in download metadata.")

def requireString (value : JsValue) (name : String) (maxLength : Nat) : Except String String :=
  match value with
  | .string s =>
    if utf16Length s < 1 ∨ maxLength < utf16Length s then .error
      ("Invalid " ++ name ++ " in download metadata.") else .ok s
  | _ => .error ("Invalid " ++ name ++ " in download metadata.")

def requireBoolean (value : JsValue) : Except String Bool :=
  match value with
  | .bool b => .ok b
  | _ => .error "Invalid password metadata."

/-- What passes the checks: names, and sizes of the one geometry that the browser can decrypt. -/
structure ValidatedMetadata where
  fileName : String
  mimeType : String
  geometry : DownloadMetadata
  format : String
  passwordProtected : Bool

def validateDownloadMetadata (value : JsValue) : Except String ValidatedMetadata := do
  let .object raw := value | .error "Download metadata is missing."
  let ⟨plaintextSize, hplain⟩ ←
    requireSafeInteger (property raw "plaintextSize") "plaintext size" 1 maxPlaintextFileSize
  let ⟨chunkSize, _⟩ ← requireSafeInteger (property raw "chunkSize") "chunk size" 1 fileChunkSize
  let ⟨chunkCount, _⟩ ← requireSafeInteger (property raw "chunkCount") "chunk count" 1 maxFileChunks
  let ⟨encryptionOverhead, _⟩ ←
    requireSafeInteger (property raw "encryptionOverhead") "encryption overhead" 1 1024
  let ⟨encryptedSize, _⟩ ← requireSafeInteger (property raw "encryptedSize") "encrypted size" 1
    (maxPlaintextFileSize + maxFileChunks * fileEncryptionOverhead)
  let ⟨hgeometry⟩ ← require (chunkSize = fileChunkSize ∧
    encryptionOverhead = fileEncryptionOverhead)
    "Unsupported encrypted file geometry."
  let ⟨hcount⟩ ← require (chunkCount = (plaintextSize + chunkSize - 1) / chunkSize)
    "Inconsistent encrypted chunk count."
  let ⟨hsize⟩ ← require (encryptedSize = plaintextSize + chunkCount * encryptionOverhead)
    "Inconsistent encrypted file size."
  let .string format := property raw "format" | .error "Unsupported encrypted file format."
  let _ ← require (format = fileStreamFormat) "Unsupported encrypted file format."
  let passwordProtected ← requireBoolean (property raw "passwordProtected")
  let fileName ← requireString (property raw "fileName") "filename" 100
  let mimeType ← requireString (property raw "mimeType") "MIME type" 100
  return {
    fileName := fileName
    mimeType := mimeType
    geometry :=
      { plaintextSize := plaintextSize
        encryptedSize := encryptedSize
        chunkSize := chunkSize
        chunkCount := chunkCount
        encryptionOverhead := encryptionOverhead
        plaintextSize_pos := hplain.1
        plaintextSize_le := hplain.2
        chunkSize_eq := hgeometry.1
        encryptionOverhead_eq := hgeometry.2
        chunkCount_eq := by rw [hcount, hgeometry.1]; rfl
        encryptedSize_eq := hsize }
    format := format
    passwordProtected := passwordProtected }

def parseIntegerHeader (headers : DownloadHeader → Option String) (header : DownloadHeader) :
    Except String Nat :=
  match (headers header).bind digits? with
  | some n =>
    if n ≤ maxSafeInteger then .ok n
      else .error ("Missing or invalid " ++ header.name ++ " response header.")
  | none => .error ("Missing or invalid " ++ header.name ++ " response header.")

def parseMimeType (encoded : Option String) : Except String String :=
  match encoded.filter (· ≠ "") with
  | none => .ok ""
  | some encoded =>
    match decodeURIComponent encoded with
    | some mimeType => .ok mimeType
    | none => .error "Invalid MIME type response header."

/-- `split(';', 1)[0].trim()` -/
def mediaType (value : String) : String := trim (String.ofList (value.toList.takeWhile (· ≠ ';')))

def validateDownloadResponse (headers : DownloadHeader → Option String) (hasBody : Bool)
    (metadata : ValidatedMetadata) :
    Except String Unit := do
  let encryptedSize ← parseIntegerHeader headers .contentLength
  let plaintextSize ← parseIntegerHeader headers .plaintextLength
  let chunkSize ← parseIntegerHeader headers .chunkSize
  let chunkCount ← parseIntegerHeader headers .chunkCount
  let encryptionOverhead ← parseIntegerHeader headers .encryptionOverhead
  let format := headers .format
  let mimeType ← parseMimeType (headers .mimeType)
  let _ ← require (encryptedSize = metadata.geometry.encryptedSize ∧
    plaintextSize = metadata.geometry.plaintextSize ∧
      chunkSize = metadata.geometry.chunkSize ∧ chunkCount = metadata.geometry.chunkCount ∧
      encryptionOverhead = metadata.geometry.encryptionOverhead ∧ format = some metadata.format ∧
      mimeType = metadata.mimeType)
    "Download response does not match the validated file metadata."
  let _ ← require ((headers .contentType).map mediaType = some "application/octet-stream")
    "Unexpected encrypted download content type."
  let _ ← require (hasBody = true) "The server returned an empty download stream."

end DownloadService
end Redbox
