import StructuredExtractor.Data.Text
import StructuredExtractor.Library.Limited
import StructuredExtractor.Service.Database

/-! # Admission of uploads

The checks on uploaded files: the number of a batch, the kind of each file, and the sizes,
which are counted while the files are read.
-/
namespace StructuredExtractor

/-- What refuses an upload, with its message. -/
inductive UploadError
  | invalidBatch (message : String)
  | invalidUpload (message : String)
  | uploadTooLarge (message : String)
  deriving DecidableEq, Repr

/-- What one read of a file returns before its end. -/
abbrev Chunk := {chunk : Bytes // chunk ≠ []}

/-- An uploaded file: what it is called, and what the reads of it return, one after the other. -/
structure UploadFile where
  filename : Option String
  contentType : Option String
  reads : List Chunk

namespace UploadFile

/-- The bytes of the file. -/
def content (file : UploadFile) : Bytes := (file.reads.map Subtype.val).flatten

/-- `file.filename or "uploaded.pdf"`. -/
def storedName (file : UploadFile) : String :=
  match file.filename with
  | none => "uploaded.pdf"
  | some name => if name = "" then "uploaded.pdf" else name

end UploadFile

structure UploadedDocument where
  filename : String
  content : Bytes
  deriving DecidableEq, Repr

namespace Uploads

def pdfContentType : String := "application/pdf"
def maxBatchSize : ℕ := 20
def maxBatchTotalSizeBytes : ℕ := 100 * 1024 * 1024

def isPdfUpload (u : Unicode) (file : UploadFile) : Bool :=
  let contentType := u.lower (file.contentType.getD "")
  let filename := u.lower (file.filename.getD "")
  contentType = pdfContentType || Text.endsWith ".pdf" filename

/-- `_read_upload_file`: chunk by chunk, with the size so far. -/
def readUploadFile (file : UploadFile) (maxSize : ℕ) : Except UploadError Bytes := do
  let chunks ← Limited.run maxSize (fun chunk : Chunk => chunk.val.length)
    (.uploadTooLarge "Uploaded file is too large") .ok file.reads
  return (chunks.map Subtype.val).flatten

def validPdfUpload (u : Unicode) (maxUploadSizeBytes : ℕ) (file : UploadFile) :
    Except UploadError UploadedDocument := do
  if !isPdfUpload u file then throw (.invalidUpload "Only PDF uploads are supported")
  return ⟨file.storedName,← readUploadFile file maxUploadSizeBytes⟩

/-- The loop of `valid_pdf_batch`: file by file, with the size so far. -/
def readBatch (u : Unicode) (maxUploadSizeBytes : ℕ) (files : List UploadFile) :
    Except UploadError (List UploadedDocument) :=
  Limited.run maxBatchTotalSizeBytes (fun upload => upload.content.length)
    (.uploadTooLarge "Uploaded batch is too large") (validPdfUpload u maxUploadSizeBytes) files

def validPdfBatch (u : Unicode) (maxUploadSizeBytes : ℕ) (files : List UploadFile) :
    Except UploadError (List UploadedDocument) := do
  if files = [] then throw (.invalidBatch "No files uploaded")
  if maxBatchSize < files.length then
    throw (.invalidBatch ("Maximum batch size is " ++ toString maxBatchSize ++ " files"))
  if let some invalid := files.find? fun file => !isPdfUpload u file then
    throw (.invalidUpload ("Only PDF uploads are supported. Invalid file: " ++ invalid.filename.getD "None"))
  readBatch u maxUploadSizeBytes files

section Exact
variable {u : Unicode} {maxSize : ℕ} {file : UploadFile} {files : List UploadFile} {uploads : List UploadedDocument}

/-- A file that is taken for a PDF, by its content type or by its name. -/
def LooksLikePdf (u : Unicode) (file : UploadFile) : Prop :=
  (∃ contentType ∈ file.contentType, u.lower contentType = pdfContentType) ∨
    ∃ filename ∈ file.filename, ".pdf".toList <:+ (u.lower filename).toList

theorem isPdfUpload_iff : isPdfUpload u file = true ↔ LooksLikePdf u file := by
  have hempty : u.lower "" = "" := u.lower_ascii "" (fun c hc => by cases hc)
  have htype : u.lower (file.contentType.getD "") = pdfContentType ↔
      ∃ contentType ∈ file.contentType, u.lower contentType = pdfContentType := by
    cases file.contentType with
    | none => simp [hempty,pdfContentType]
    | some contentType => simp
  have hname : Text.endsWith ".pdf" (u.lower (file.filename.getD "")) = true ↔
      ∃ filename ∈ file.filename, ".pdf".toList <:+ (u.lower filename).toList := by
    cases file.filename with
    | none => simp [Text.endsWith,hempty]
    | some filename => simp [Text.endsWith]
  simp only [isPdfUpload,Bool.or_eq_true,decide_eq_true_eq]
  exact or_congr htype hname

/-- What a file is taken as. -/
def uploaded (file : UploadFile) : UploadedDocument := ⟨file.storedName,file.content⟩

theorem content_length : file.content.length = (file.reads.map fun chunk => chunk.val.length).sum := by
  rw [UploadFile.content,List.length_flatten,List.map_map]
  rfl

theorem readUploadFile_eq_ok {content : Bytes} :
    readUploadFile file maxSize = .ok content ↔ file.content.length ≤ maxSize ∧ content = file.content := by
  have htake : ∀ chunk chunk' : Chunk,
      (.ok chunk : Except UploadError Chunk) = .ok chunk' ↔ True ∧ chunk' = id chunk := by
    simp [eq_comm]
  rw [content_length]
  constructor
  · intro h
    obtain ⟨chunks,hrun,hcontent⟩ := bind_eq_ok h
    obtain ⟨-,hsize,rfl⟩ := (Limited.run_eq_ok htake).mp hrun
    cases hcontent
    exact ⟨hsize,by rw [List.map_id]; rfl⟩
  · rintro ⟨hsize,rfl⟩
    have hrun : Limited.run maxSize (fun chunk : Chunk => chunk.val.length)
        (UploadError.uploadTooLarge "Uploaded file is too large") .ok file.reads = .ok file.reads :=
      (Limited.run_eq_ok htake).mpr ⟨fun _ _ => trivial,hsize,(List.map_id _).symm⟩
    rw [readUploadFile,hrun]
    rfl

theorem validPdfUpload_eq_ok (file : UploadFile) (upload : UploadedDocument) :
    validPdfUpload u maxSize file = .ok upload ↔
      (LooksLikePdf u file ∧ file.content.length ≤ maxSize) ∧ upload = uploaded file := by
  rw [← isPdfUpload_iff]
  constructor
  · intro h
    cases hpdf : isPdfUpload u file with
    | false =>
      rw [validPdfUpload,hpdf] at h
      cases h
    | true =>
      rw [validPdfUpload,hpdf] at h
      obtain ⟨content,hread,hupload⟩ := bind_eq_ok h
      obtain ⟨hsize,rfl⟩ := readUploadFile_eq_ok.mp hread
      exact ⟨⟨rfl,hsize⟩,(Except.ok.inj hupload).symm⟩
  · rintro ⟨⟨hpdf,hsize⟩,rfl⟩
    rw [validPdfUpload,hpdf,readUploadFile_eq_ok.mpr ⟨hsize,rfl⟩]
    rfl

/-- A PDF is refused for its size only. -/
theorem validPdfUpload_error {e : UploadError} (hpdf : LooksLikePdf u file)
    (h : validPdfUpload u maxSize file = .error e) : e = .uploadTooLarge "Uploaded file is too large" := by
  have hread : readUploadFile file maxSize = .error e := by
    rw [validPdfUpload,isPdfUpload_iff.mpr hpdf] at h
    cases hr : readUploadFile file maxSize with
    | ok content =>
      rw [hr] at h
      cases h
    | error e' =>
      rw [hr] at h
      exact congrArg Except.error (Except.error.inj h)
  unfold readUploadFile at hread
  cases hr : Limited.run maxSize (fun chunk : Chunk => chunk.val.length)
      (UploadError.uploadTooLarge "Uploaded file is too large") .ok file.reads with
  | ok chunks =>
    rw [hr] at hread
    cases hread
  | error e' =>
    rw [hr] at hread
    cases hread
    obtain ⟨chunk,-,hchunk⟩ | he := Limited.run_eq_error hr
    · cases hchunk
    · exact he

theorem readBatch_eq_ok : readBatch u maxSize files = .ok uploads ↔
    (∀ file ∈ files, LooksLikePdf u file ∧ file.content.length ≤ maxSize) ∧
      (files.map fun file => file.content.length).sum ≤ maxBatchTotalSizeBytes ∧ uploads = files.map uploaded :=
  Limited.run_eq_ok validPdfUpload_eq_ok

/-- A batch that is taken. -/
structure Admissible (u : Unicode) (maxSize : ℕ) (files : List UploadFile) : Prop where
  nonempty : 1 ≤ files.length
  count : files.length ≤ maxBatchSize
  pdf : ∀ file ∈ files, LooksLikePdf u file
  size : ∀ file ∈ files, file.content.length ≤ maxSize
  total : (files.map fun file => file.content.length).sum ≤ maxBatchTotalSizeBytes

section Checks
variable (u) (maxSize)

theorem validPdfBatch_empty : validPdfBatch u maxSize [] = .error (.invalidBatch "No files uploaded") := rfl

theorem validPdfBatch_crowded (h : maxBatchSize < files.length) :
    validPdfBatch u maxSize files = .error (.invalidBatch "Maximum batch size is 20 files") := by
  have hne : files ≠ [] := by
    rintro rfl
    cases h
  rw [validPdfBatch,if_neg hne,if_pos h]
  rfl

theorem validPdfBatch_invalid (hne : files ≠ []) (hcount : files.length ≤ maxBatchSize)
    (h : files.find? (fun file => !isPdfUpload u file) = some file) : validPdfBatch u maxSize files =
      .error (.invalidUpload ("Only PDF uploads are supported. Invalid file: " ++ file.filename.getD "None")) := by
  rw [validPdfBatch,if_neg hne,if_neg hcount.not_gt,h]
  rfl

theorem validPdfBatch_read (hne : files ≠ []) (hcount : files.length ≤ maxBatchSize)
    (h : files.find? (fun file => !isPdfUpload u file) = none) :
    validPdfBatch u maxSize files = readBatch u maxSize files := by
  rw [validPdfBatch,if_neg hne,if_neg hcount.not_gt,h]

end Checks

theorem find_invalid_eq_none :
    files.find? (fun file => !isPdfUpload u file) = none ↔ ∀ file ∈ files, LooksLikePdf u file := by
  rw [List.find?_eq_none]
  simp [isPdfUpload_iff]

theorem validPdfBatch_eq_ok :
    validPdfBatch u maxSize files = .ok uploads ↔ Admissible u maxSize files ∧ uploads = files.map uploaded := by
  by_cases hne : files = []
  · subst hne
    rw [validPdfBatch_empty]
    exact iff_of_false nofun fun h => absurd h.1.nonempty (by decide)
  by_cases hcount : maxBatchSize < files.length
  · rw [validPdfBatch_crowded u maxSize hcount]
    exact iff_of_false nofun fun h => h.1.count.not_gt hcount
  have hcount := Nat.le_of_not_lt hcount
  cases hfind : files.find? fun file => !isPdfUpload u file with
  | some invalid =>
    rw [validPdfBatch_invalid u maxSize hne hcount hfind]
    refine iff_of_false nofun fun h => ?_
    rw [find_invalid_eq_none.mpr h.1.pdf] at hfind
    cases hfind
  | none =>
    rw [validPdfBatch_read u maxSize hne hcount hfind,readBatch_eq_ok]
    constructor
    · rintro ⟨hfiles,htotal,hmap⟩
      exact ⟨⟨List.length_pos_iff.mpr hne,hcount,fun f hf => (hfiles f hf).1,fun f hf => (hfiles f hf).2,htotal⟩,hmap⟩
    · rintro ⟨h,hmap⟩
      exact ⟨fun f hf => ⟨h.pdf f hf,h.size f hf⟩,h.total,hmap⟩

/-- What an error says of the batch it refuses. -/
def Explains (u : Unicode) (maxSize : ℕ) (files : List UploadFile) : UploadError → Prop
  | .invalidBatch message => files = [] ∧ message = "No files uploaded" ∨
      maxBatchSize < files.length ∧ message = "Maximum batch size is 20 files"
  | .invalidUpload message => ∃ file ∈ files, ¬ LooksLikePdf u file ∧
      message = "Only PDF uploads are supported. Invalid file: " ++ file.filename.getD "None"
  | .uploadTooLarge _ => (∃ file ∈ files, maxSize < file.content.length) ∨
      maxBatchTotalSizeBytes < (files.map fun file => file.content.length).sum

/-- **Errors of a batch.** What refuses a batch names what is wrong with it. -/
theorem validPdfBatch_explains {e : UploadError} (h : validPdfBatch u maxSize files = .error e) :
    Explains u maxSize files e := by
  by_cases hne : files = []
  · subst hne
    cases h
    exact .inl ⟨rfl,rfl⟩
  by_cases hcount : maxBatchSize < files.length
  · rw [validPdfBatch_crowded u maxSize hcount] at h
    cases h
    exact .inr ⟨hcount,rfl⟩
  have hcount := Nat.le_of_not_lt hcount
  cases hfind : files.find? fun file => !isPdfUpload u file with
  | some invalid =>
    rw [validPdfBatch_invalid u maxSize hne hcount hfind] at h
    cases h
    have hnot := List.find?_some hfind
    exact ⟨invalid,List.mem_of_find?_eq_some hfind,by simpa [← isPdfUpload_iff] using hnot,rfl⟩
  | none =>
    have hpdf := find_invalid_eq_none.mp hfind
    have hlarge : (∃ file ∈ files, maxSize < file.content.length) ∨
        maxBatchTotalSizeBytes < (files.map fun file => file.content.length).sum := by
      by_contra hsmall
      push Not at hsmall
      have hok := validPdfBatch_eq_ok.mpr ⟨⟨List.length_pos_iff.mpr hne,hcount,hpdf,hsmall.1,hsmall.2⟩,rfl⟩
      rw [h] at hok
      cases hok
    obtain ⟨message,rfl⟩ : ∃ message, e = .uploadTooLarge message := by
      rw [validPdfBatch_read u maxSize hne hcount hfind] at h
      obtain ⟨file,hfile,hraised⟩ | rfl := Limited.run_eq_error h
      · exact ⟨_,validPdfUpload_error (hpdf file hfile) hraised⟩
      · exact ⟨_,rfl⟩
    exact hlarge

/-- **Admission of a batch.** -/
theorem validPdfBatch_exact (u : Unicode) (maxSize : ℕ) (files : List UploadFile) :
    ((∃ uploads, validPdfBatch u maxSize files = .ok uploads) ↔ Admissible u maxSize files) ∧
    ∀ uploads, validPdfBatch u maxSize files = .ok uploads →
      uploads = files.map fun file => ⟨file.storedName,file.content⟩ := by
  refine ⟨⟨?_,fun h => ⟨_,validPdfBatch_eq_ok.mpr ⟨h,rfl⟩⟩⟩,fun uploads h => (validPdfBatch_eq_ok.mp h).2⟩
  rintro ⟨uploads,h⟩
  exact (validPdfBatch_eq_ok.mp h).1

end Exact

end Uploads

end StructuredExtractor
