import Redbox.Download.DownloadService

/-! Which stored files the browser accepts for download. -/
namespace Redbox
open Text DownloadService

/-- The metadata of the file and the headers of its download pass the checks of the browser. -/
def Downloadable (file : File) : Prop :=
  ∃ m headers v, FilesService.getDownloadMetadata file = .ok m ∧
    FilesController.downloadHeaders file = .ok headers ∧
    validateDownloadMetadata m.json = .ok v ∧
      validateDownloadResponse (fun header => headers.lookup header) true v = .ok ()

namespace DownloadService

theorem require_true {p : Prop} [Decidable p] {e : String} (h : p) :
    require p e = .ok ⟨h⟩ := dif_pos h

theorem ok_bind {α β : Type} (a : α) (f : α → Except String β) : (Except.ok a >>= f) = f a := rfl

theorem requireString_cases (s name : String) (maxLength : Nat) :
    ((1 ≤ utf16Length s ∧ utf16Length s ≤ maxLength) ∧
      requireString (.string s) name maxLength = .ok s) ∨
    (¬(1 ≤ utf16Length s ∧ utf16Length s ≤ maxLength) ∧
      ∃ e, requireString (.string s) name maxLength = .error e) := by
  rw [requireString]
  by_cases h : utf16Length s < 1 ∨ maxLength < utf16Length s
  · exact .inr ⟨by omega, _, if_pos h⟩
  · exact .inl ⟨by omega, if_neg h⟩

theorem requireSafeInteger_ok {n min max : Nat} {name : String} (hmin : min ≤ n) (hmax : n ≤ max)
    (hsafe : max ≤ maxSafeInteger) :
    requireSafeInteger (.int n) name min max = .ok ⟨n, hmin, hmax⟩ := by
  have h : (n : Int).natAbs ≤ maxSafeInteger ∧ (min : Int) ≤ n ∧ (n : Int) ≤ max := by
    simp only [Int.natAbs_natCast]
    omega
  rw [requireSafeInteger, dif_pos h]
  rfl

theorem parseIntegerHeader_ok {headers : DownloadHeader → Option String} {header : DownloadHeader}
    {n : Nat} (h : headers header = some (toString n)) (hsafe : n ≤ maxSafeInteger) :
    parseIntegerHeader headers header = .ok n := by
  rw [parseIntegerHeader, h, Option.bind_some, digits_toString]
  exact if_pos hsafe

@[simp] theorem property_cons (key name : String) (value : JsValue)
    (fields : List (String × JsValue)) :
    property ((name, value) :: fields) key = if key = name then value else property fields key := by
  by_cases h : key = name
  · simp [property, h]
  · simp [property, List.lookup_cons, h, beq_false_of_ne h]

theorem safeSize : maxPlaintextFileSize + maxFileChunks * fileEncryptionOverhead ≤
      maxSafeInteger := by decide

theorem parseMimeType_ok (s : String) : parseMimeType (some (encodeURIComponent s)) = .ok s := by
  by_cases h : s = ""
  · subst h
    rfl
  · have hne : (decide (encodeURIComponent s ≠ "")) = true := decide_eq_true (encode_ne_empty h)
    rw [parseMimeType, Option.filter_some, if_pos hne]
    simp only [decode_encode]

/-- What the browser makes of the metadata of a file of the right size. -/
def described (file : File) (hpos : 1 ≤ file.size) (hle : file.size ≤ maxPlaintextFileSize) :
    ValidatedMetadata :=
  ⟨file.originalName, file.mimetype, .ofSize file.size hpos hle, fileStreamFormat,
    file.passwordHash.any (· ≠ "")⟩

section
variable {file : File} (hpos : 1 ≤ file.size) (hle : file.size ≤ maxPlaintextFileSize)
include hpos hle

theorem expectedEncryptedSize : FilesService.getExpectedEncryptedSize file.size =
    .ok (file.size + chunkCount file.size * encryptedChunkOverheadBytes) := by
  rw [FilesService.getExpectedEncryptedSize, if_neg]
  simp only [adminMaxFileSizeBytes, maxPlaintextFileSize] at hle ⊢
  omega

theorem chunkCount_le : 1 ≤ chunkCount file.size ∧ chunkCount file.size ≤ maxFileChunks := by
  simp only [chunkCount, maxFileChunks, plaintextChunkSizeBytes, fileChunkSize,
    maxPlaintextFileSize] at hle ⊢
  omega

theorem encryptedSize_le : file.size + chunkCount file.size * encryptedChunkOverheadBytes ≤
    maxPlaintextFileSize + maxFileChunks * fileEncryptionOverhead :=
  Nat.add_le_add hle (Nat.mul_le_mul_right _ (chunkCount_le hpos hle).2)

/-- Only the names can be rejected. -/
theorem validate_metadata {m : FileMetadata} (hm : FilesService.getDownloadMetadata file = .ok m) :
    validateDownloadMetadata m.json = (do
      let _ ← requireString (.string file.originalName) "filename" 100
      let _ ← requireString (.string file.mimetype) "MIME type" 100
      return described file hpos hle) := by
  obtain ⟨hc1, hc2⟩ := chunkCount_le hpos hle
  rw [FilesService.getDownloadMetadata, expectedEncryptedSize hpos hle] at hm
  obtain rfl := Except.ok.inj hm
  have hsize := encryptedSize_le hpos hle
  unfold validateDownloadMetadata FileMetadata.json
  simp only [property_cons, String.reduceEq, reduceIte]
  rw [requireSafeInteger_ok hpos hle (by decide)]
  rw [requireSafeInteger_ok (by decide) (by decide) (by decide)]
  rw [requireSafeInteger_ok hc1 hc2 (by decide)]
  rw [requireSafeInteger_ok (by decide) (by decide) (by decide)]
  rw [requireSafeInteger_ok (by omega) hsize safeSize]
  have hgeometry : plaintextChunkSizeBytes = fileChunkSize ∧
      encryptedChunkOverheadBytes = fileEncryptionOverhead := ⟨rfl, rfl⟩
  have hcount : chunkCount file.size = (file.size + plaintextChunkSizeBytes - 1) /
      plaintextChunkSizeBytes := rfl
  have hformat : fileEncryptionFormat = fileStreamFormat := rfl
  rw [ok_bind, ok_bind, ok_bind, ok_bind, ok_bind, require_true hgeometry, ok_bind,
    require_true hcount, ok_bind,
    require_true rfl, ok_bind, require_true hformat, ok_bind, requireBoolean, ok_bind]
  -- `requireString` hands the string on
  rcases requireString_cases file.originalName "filename" 100 with ⟨-, h⟩ | ⟨-, e, h⟩ <;> rw [h]
  · rcases requireString_cases file.mimetype "MIME type" 100 with ⟨-, h'⟩ | ⟨-, e, h'⟩
      <;> rw [ok_bind, ok_bind, h'] <;> rfl
  · rfl

end

/-- The headers of a download repeat its metadata. -/
theorem validate_response {file : File} {headers : List (DownloadHeader × String)}
    (hpos : 1 ≤ file.size) (hle : file.size ≤ maxPlaintextFileSize)
    (hh : FilesController.downloadHeaders file = .ok headers) :
    validateDownloadResponse (fun header => headers.lookup header) true (described file hpos hle) =
      .ok () := by
  obtain ⟨-, hc⟩ := chunkCount_le hpos hle
  rw [FilesController.downloadHeaders, expectedEncryptedSize hpos hle] at hh
  obtain rfl := Except.ok.inj hh
  have hchunks : maxFileChunks ≤ maxSafeInteger := by decide
  have hsize := encryptedSize_le hpos hle
  generalize hget : (fun header : DownloadHeader => List.lookup header _) = get
  have hlength : get .contentLength =
      some (toString (file.size + chunkCount file.size * encryptedChunkOverheadBytes)) := by
    rw [← hget]; rfl
  have hplain : get .plaintextLength = some (toString file.size) := by rw [← hget]; rfl
  have hchunk : get .chunkSize = some (toString plaintextChunkSizeBytes) := by rw [← hget]; rfl
  have hcount : get .chunkCount = some (toString (chunkCount file.size)) := by rw [← hget]; rfl
  have hover : get .encryptionOverhead = some (toString encryptedChunkOverheadBytes) := by
    rw [← hget]; rfl
  have hformat : get .format = some fileEncryptionFormat := by rw [← hget]; rfl
  have hmime : get .mimeType = some (encodeURIComponent file.mimetype) := by rw [← hget]; rfl
  have htype : get .contentType = some "application/octet-stream" := by rw [← hget]; rfl
  have hmedia : mediaType "application/octet-stream" = "application/octet-stream" := by
    decide +kernel
  unfold validateDownloadResponse
  rw [parseIntegerHeader_ok hlength (Nat.le_trans hsize safeSize), ok_bind,
    parseIntegerHeader_ok hplain (by have := safeSize; omega), ok_bind,
    parseIntegerHeader_ok hchunk (by decide), ok_bind,
    parseIntegerHeader_ok hcount (Nat.le_trans hc hchunks), ok_bind,
    parseIntegerHeader_ok hover (by decide), ok_bind,
    hmime, parseMimeType_ok, ok_bind, require_true ⟨rfl, rfl, rfl, rfl, rfl, hformat, rfl⟩, ok_bind,
    htype, Option.map_some, require_true (congrArg some hmedia), ok_bind, require_true rfl]
  rfl

end DownloadService

open DownloadService

variable {file : File}

/-- The row of a file whose size was admitted at its initialization is downloadable as far as
its names are short enough. -/
theorem downloadable_of_size (hpos : 1 ≤ file.size) (hle : file.size ≤ maxPlaintextFileSize) :
    Downloadable file ↔ (1 ≤ utf16Length file.originalName ∧ utf16Length file.originalName ≤ 100) ∧
      1 ≤ utf16Length file.mimetype ∧ utf16Length file.mimetype ≤ 100 := by
  obtain ⟨m, hm⟩ : ∃ m, FilesService.getDownloadMetadata file = .ok m := by
    rw [FilesService.getDownloadMetadata, expectedEncryptedSize hpos hle]
    exact ⟨_, rfl⟩
  obtain ⟨headers, hh⟩ : ∃ headers, FilesController.downloadHeaders file = .ok headers := by
    rw [FilesController.downloadHeaders, expectedEncryptedSize hpos hle]
    exact ⟨_, rfl⟩
  have hv := validate_metadata hpos hle hm
  rcases requireString_cases file.originalName "filename" 100 with ⟨hname, h⟩ | ⟨hname, e, h⟩
    <;> rw [h] at hv
  · rcases requireString_cases file.mimetype "MIME type" 100 with ⟨htype, h'⟩ | ⟨htype, e, h'⟩
      <;> rw [h'] at hv
    · exact ⟨fun _ => ⟨hname, htype⟩, fun _ => ⟨_, _, _, hm, hh, hv, validate_response hpos hle hh⟩⟩
    · refine ⟨fun ⟨m', _, v, hm', _, hv', _⟩ => ?_, fun ⟨_, h⟩ => absurd h htype⟩
      obtain rfl := Except.ok.inj (hm.symm.trans hm')
      cases hv.symm.trans hv'
  · refine ⟨fun ⟨m', _, v, hm', _, hv', _⟩ => ?_, fun ⟨h, _⟩ => absurd h hname⟩
    obtain rfl := Except.ok.inj (hm.symm.trans hm')
    cases hv.symm.trans hv'

namespace Database

variable {cfg : Config} {db db' : Database} {userId : Id} {originalName mimetype key : String}
  {uploadMeta : UploadMeta}
  {iv : Id} {now : Time} {fresh : Id}

/-- The row repeats the request and the metadata of the upload. -/
theorem createFile_file (h : db.createFile cfg userId originalName mimetype uploadMeta key iv now
      fresh = .ok (db', file)) :
    file.originalName = originalName ∧ file.mimetype = mimetype ∧
    file.size = uploadMeta.fileSize := by
  rw [createFile] at h
  cases ha : db.checkUploadAllowance cfg userId uploadMeta.fileSize with
  | error e =>
    rw [ha] at h
    cases h
  | ok _ =>
    rw [ha] at h
    change (if _ then _ else _) = _ at h
    split at h
    · cases h
    · cases h
      exact ⟨rfl, rfl, rfl⟩

end Database

/-- The metadata that `initializeUpload` stores, after some chunks. -/
def uploadedMeta (init : InitUploadDto) (passwordHash : Option String) (storageKey s3UploadId : Id)
    (started : Time) (nextExpectedChunk : Nat) (parts : List UploadPart) (updatedAt : Time) :
    UploadMeta :=
  { FilesService.newUploadMeta init passwordHash storageKey s3UploadId started with
    nextExpectedChunk := nextExpectedChunk, parts := parts, updatedAt := updatedAt }

theorem utf16Length_pos {s : String} (h : 1 ≤ s.length) : 1 ≤ utf16Length s :=
  Nat.le_trans h (length_le_utf16Length s)

theorem CompleteUploadRequest.valid_names {request : CompleteUploadRequest}
    (h : request.valid = true) :
    1 ≤ request.dto.fileName.length ∧ 1 ≤ request.dto.mimetype.length := by
  simp only [valid, Bool.and_eq_true, decide_eq_true_eq] at h
  obtain ⟨⟨⟨⟨hname, -⟩, hmime⟩, -⟩, -⟩ := h
  refine ⟨hname.1, ?_⟩
  rw [dto]
  cases hm : request.mimetype with
  | none => exact (by decide : 1 ≤ "application/octet-stream".length)
  | some m =>
    rw [hm, Option.all_some, decide_eq_true_eq] at hmime
    exact hmime.1

section
variable {cfg : Config} {db db' : Database} {init : InitUploadDto} {request : CompleteUploadRequest}
  {passwordHash : Option String} {userId storageKey s3UploadId iv fresh : Id}
    {started updatedAt now : Time} {next : Nat}
  {parts : List UploadPart} {key : String}

/-- A stored file is downloadable if and only if its name and its MIME type have at most 100
UTF-16 code units. -/
theorem stored_file_downloadable_iff (hinit : init.valid = true) (hrequest : request.valid = true)
    (h : db.createFile cfg userId request.dto.fileName request.dto.mimetype
      (uploadedMeta init passwordHash storageKey s3UploadId started next parts updatedAt) key iv now
        fresh = .ok (db', file)) :
    Downloadable file ↔ utf16Length request.dto.fileName ≤ 100 ∧
      utf16Length request.dto.mimetype ≤ 100 := by
  obtain ⟨hname, hmime, hsize⟩ := Database.createFile_file h
  obtain ⟨hn, ht⟩ := CompleteUploadRequest.valid_names hrequest
  have hs : 1 ≤ init.fileSize ∧ init.fileSize ≤ maxPlaintextFileSize := by
    simp only [InitUploadDto.valid, Bool.and_eq_true, decide_eq_true_eq] at hinit
    exact ⟨hinit.1.1.1.1.1, hinit.1.1.1.1.2⟩
  change file.size = init.fileSize at hsize
  rw [← hsize] at hs
  rw [downloadable_of_size hs.1 hs.2, hname, hmime]
  exact ⟨fun h => ⟨h.1.2, h.2.2⟩, fun h => ⟨⟨utf16Length_pos hn, h.1⟩, utf16Length_pos ht, h.2⟩⟩

end

/-- Every file that the database can store of admitted requests is downloadable. -/
def StoredFilesDownloadable (cfg : Config) (db : Database) : Prop :=
  ∀ (init : InitUploadDto) (request : CompleteUploadRequest) (passwordHash : Option String)
    (userId storageKey s3UploadId iv fresh : Id) (started updatedAt now : Time) (next : Nat)
      (parts : List UploadPart)
    (key : String) (db' : Database) (file : File),
    init.valid = true → request.valid = true →
    db.createFile cfg userId request.dto.fileName request.dto.mimetype
      (uploadedMeta init passwordHash storageKey s3UploadId started next parts updatedAt) key iv now
        fresh = .ok (db', file) →
    Downloadable file

def demoInit : InitUploadDto := ⟨5, 1, none, none⟩

def demoFileKey : String := String.ofList (List.replicate 64 'a')

/-- 51 characters of two code units each. -/
def smileys : CompleteUploadRequest := ⟨String.ofList (List.replicate 51 '😀'), 1, none, demoFileKey⟩

/-- The pipe and the database count 51 characters in a name in which the browser counts 102. -/
theorem long_name_stored : ¬ StoredFilesDownloadable demoConfig demoWorld.db := by
  intro h
  have hrequest : smileys.valid = true := by decide +kernel
  have hcreated : ∃ db' file, demoWorld.db.createFile demoConfig 1 smileys.dto.fileName
    smileys.dto.mimetype
      (uploadedMeta demoInit none 50 51 0 1 [] 0) "key" 52 0 60 = .ok (db', file) := ⟨_, _, rfl⟩
  obtain ⟨db', file, hfile⟩ := hcreated
  obtain ⟨hname, -, hsize⟩ := Database.createFile_file hfile
  have hd := h demoInit smileys none 1 50 51 52 60 0 0 0 1 [] "key" db' file rfl hrequest hfile
  change file.size = 5 at hsize
  rw [downloadable_of_size (by omega) (by rw [hsize]; decide), hname] at hd
  have hlong : ¬ utf16Length smileys.dto.fileName ≤ 100 := by decide +kernel
  exact hlong hd.1.2

/-- A request for a small picture. -/
def picture : CompleteUploadRequest := ⟨"cat.png", 1, some "image/png", demoFileKey⟩

theorem stored_file_downloadable_iff_demo : ∃ db' file,
    demoWorld.db.createFile demoConfig 1 picture.dto.fileName picture.dto.mimetype
      (uploadedMeta demoInit none 50 51 0 1 [] 0) "key" 52 0 60 = .ok (db', file) ∧
        Downloadable file := by
  have hrequest : picture.valid = true := by decide +kernel
  have hcreated : ∃ db' file, demoWorld.db.createFile demoConfig 1 picture.dto.fileName
    picture.dto.mimetype
      (uploadedMeta demoInit none 50 51 0 1 [] 0) "key" 52 0 60 = .ok (db', file) := ⟨_, _, rfl⟩
  obtain ⟨db', file, hfile⟩ := hcreated
  have hinit : demoInit.valid = true := rfl
  exact ⟨db', file, hfile, (stored_file_downloadable_iff hinit hrequest hfile).mpr
    (by decide +kernel)⟩

end Redbox
