import AssetStore.Guard
import AssetStore.Lib.Slices

/-! The S3 adapter. The service keeps objects and the multipart uploads in progress; an upload
stores its parts by number, and its completion puts the listed parts together in the order of the
list. Any request may fail, and then it has changed nothing. -/

namespace AssetStore

open Lib

/-! ### The service -/

/-- What a call may raise: a `ClientError` with its code and status, the adapter's own
`ObjectNotFoundError`, or another exception. -/
inductive S3Error
  | client (code : Text) (status : Int)
  | objectNotFound (message : Text)
  | other (message : Text)
  deriving DecidableEq, Repr

structure S3Object where
  body : List UInt8
  metadata : Dict Text Text

/-- An entry of the parts that a completion lists. -/
structure CompletedPart where
  etag : Text
  partNumber : Nat
  deriving DecidableEq

/-- A multipart upload in progress. -/
structure S3Upload where
  location : ObjectStoreLocation
  metadata : Dict Text Text
  parts : Dict Nat (List UInt8)

inductive S3Request
  | putObject (location : ObjectStoreLocation) (body : List UInt8) (metadata : Dict Text Text)
  | createMultipartUpload (location : ObjectStoreLocation) (metadata : Dict Text Text)
  | uploadPart (location : ObjectStoreLocation) (uploadId : Text) (partNumber : Nat)
      (body : List UInt8)
  | completeMultipartUpload (location : ObjectStoreLocation) (uploadId : Text)
      (parts : List CompletedPart)
  | abortMultipartUpload (location : ObjectStoreLocation) (uploadId : Text)
  | getObject (location : ObjectStoreLocation)
  | headObject (location : ObjectStoreLocation)
  | deleteObject (location : ObjectStoreLocation)

/-- What the service has stored. -/
structure S3Tables where
  objects : Dict ObjectStoreLocation S3Object
  uploads : Dict Text S3Upload

/-- The requests that were made, oldest first, each with the exception that it raised. -/
abbrev S3Journal := List (S3Request × Option S3Error)

structure S3State extends S3Tables where
  journal : S3Journal

/-- A service: which requests fail, after which others; the entity tags of parts; and new upload
ids. -/
structure S3Service where
  fails : S3Journal → S3Request → Option S3Error
  etag : List UInt8 → Text
  newId : S3Tables → Text
  newId_fresh : ∀ t : S3Tables, t.uploads.get (newId t) = none

abbrev S3M := EStateM S3Error S3State

namespace S3Service

variable (service : S3Service)

/-- A request, and what the service does with it unless it fails. -/
def request {β : Type} (r : S3Request) (serve : S3Tables → Except S3Error (β × S3Tables)) :
    S3M β := fun s =>
  match (service.fails s.journal r).elim (serve s.toS3Tables) .error with
  | .ok (b, t) => .ok b { t with journal := s.journal ++ [(r, none)] }
  | .error e => .error e { s with journal := s.journal ++ [(r, some e)] }

/-- The object is stored, in place of one that was. -/
def storeObject (location : ObjectStoreLocation) (body : List UInt8) (metadata : Dict Text Text)
    (t : S3Tables) :
    Except S3Error (Unit × S3Tables) :=
  .ok ((), { t with objects := t.objects.set location { body, metadata } })

def putObject (location : ObjectStoreLocation) (body : List UInt8)
    (metadata : Dict Text Text) : S3M Unit :=
  service.request (.putObject location body metadata) (storeObject location body metadata)

/-- A new upload, without parts. -/
def openUpload (location : ObjectStoreLocation) (metadata : Dict Text Text) (t : S3Tables) :
    Except S3Error (Text × S3Tables) :=
  .ok (service.newId t, { t with
    uploads := t.uploads.set (service.newId t) { location, metadata, parts := .empty } })

def createMultipartUpload (location : ObjectStoreLocation) (metadata : Dict Text Text) : S3M Text :=
  service.request (.createMultipartUpload location metadata) (service.openUpload location metadata)

/-- The upload that a request names. -/
def findUpload (t : S3Tables) (location : ObjectStoreLocation) (uploadId : Text) :
    Except S3Error S3Upload := do
  let upload ← someOr (t.uploads.get uploadId) (.client "NoSuchUpload".toList 404)
  raiseIf (upload.location ≠ location) (.client "NoSuchUpload".toList 404)
  return upload

/-- A part is stored under its number, in place of one that was. -/
def storePart (location : ObjectStoreLocation) (uploadId : Text) (partNumber : Nat)
    (body : List UInt8)
    (t : S3Tables) : Except S3Error (Text × S3Tables) := do
  let upload ← findUpload t location uploadId
  return (service.etag body,
    { t with uploads := t.uploads.set uploadId { upload with
      parts := upload.parts.set partNumber body } })

def uploadPart (location : ObjectStoreLocation) (uploadId : Text) (partNumber : Nat)
    (body : List UInt8) :
    S3M Text :=
  service.request (.uploadPart location uploadId partNumber body)
    (service.storePart location uploadId partNumber body)

/-- A listed part, if it is stored under its number and has the listed tag. -/
def listedPart (upload : S3Upload) (part : CompletedPart) : Except S3Error (List UInt8) := do
  let body ← someOr (upload.parts.get part.partNumber) (.client "InvalidPart".toList 400)
  raiseIf (service.etag body ≠ part.etag) (.client "InvalidPart".toList 400)
  return body

/-- The listed parts become the object, in the order of the list. -/
def joinParts (location : ObjectStoreLocation) (uploadId : Text) (parts : List CompletedPart)
    (t : S3Tables) :
    Except S3Error (Unit × S3Tables) := do
  let upload ← findUpload t location uploadId
  raiseIf (parts = []) (.client "MalformedXML".toList 400)
  raiseIf (¬(parts.map CompletedPart.partNumber).Pairwise (· < ·))
    (.client "InvalidPartOrder".toList 400)
  let bodies ← parts.mapM (service.listedPart upload)
  return ((), { objects := t.objects.set location { body := bodies.flatten,
                                                    metadata := upload.metadata }
                uploads := t.uploads.erase uploadId })

def completeMultipartUpload (location : ObjectStoreLocation) (uploadId : Text)
    (parts : List CompletedPart) :
    S3M Unit :=
  service.request (.completeMultipartUpload location uploadId parts)
    (service.joinParts location uploadId parts)

/-- The upload is given up with its parts. -/
def dropUpload (location : ObjectStoreLocation) (uploadId : Text) (t : S3Tables) :
    Except S3Error (Unit × S3Tables) := do
  let _ ← findUpload t location uploadId
  return ((), { t with uploads := t.uploads.erase uploadId })

def abortMultipartUpload (location : ObjectStoreLocation) (uploadId : Text) : S3M Unit :=
  service.request (.abortMultipartUpload location uploadId) (dropUpload location uploadId)

def getObject (location : ObjectStoreLocation) : S3M S3Object :=
  service.request (.getObject location) fun t => do
    let object ← someOr (t.objects.get location) (.client "NoSuchKey".toList 404)
    return (object, t)

def headObject (location : ObjectStoreLocation) : S3M S3Object :=
  service.request (.headObject location) fun t => do
    let object ← someOr (t.objects.get location) (.client "404".toList 404)
    return (object, t)

def deleteObject (location : ObjectStoreLocation) : S3M Unit :=
  service.request (.deleteObject location) fun t =>
    .ok ((), { t with objects := t.objects.erase location })

end S3Service

/-! ### `s3_object_store.py` -/

/-- `_CHECKSUM_META_KEY`. -/
def checksumMetaKey : Text := "checksum".toList

/-- `_is_not_found`. -/
def isNotFound (code : Text) (status : Int) : Bool :=
  ["NoSuchKey".toList, "NoSuchBucket".toList, "404".toList].contains code || status == 404

/-- `S3ObjectStore`. -/
structure S3ObjectStore where
  service : S3Service
  multipartThreshold : Nat := 8 * 1024 * 1024
  partSize : Nat := 8 * 1024 * 1024

namespace S3ObjectStore

variable (store : S3ObjectStore)

/-- The loop of `_put_multipart` over the starts of the parts, the next of which has the number
`partNumber`. -/
def uploadParts (location : ObjectStoreLocation) (uploadId : Text) (payload : List UInt8) :
    List Nat → Nat → List CompletedPart → S3M (List CompletedPart)
  | [], _, parts => return parts
  | start :: starts, partNumber, parts => do
    let chunk := slice payload start (start + store.partSize)
    let etag ← store.service.uploadPart location uploadId partNumber chunk
    uploadParts location uploadId payload starts (partNumber + 1) (parts ++ [{ etag, partNumber }])

/-- What `_put_multipart` tries. -/
def sendParts (location : ObjectStoreLocation) (uploadId : Text) (payload : List UInt8) :
    S3M Unit := do
  attempt (raiseIf (store.partSize = 0) (S3Error.other "range() arg 3 must not be zero".toList))
  let parts ← store.uploadParts location uploadId payload (steps payload.length store.partSize) 1 []
  store.service.completeMultipartUpload location uploadId parts

/-- `_put_multipart`: the upload is aborted on any failure. -/
def putMultipart (location : ObjectStoreLocation) (payload : List UInt8)
    (metadata : Dict Text Text) :
    S3M Unit := do
  let uploadId ← store.service.createMultipartUpload location metadata
  tryCatch (store.sendParts location uploadId payload) fun e => do
    store.service.abortMultipartUpload location uploadId
    throw e

/-- The metadata of a payload. -/
def checksumMetadata (env : Env) (payload : List UInt8) : Dict Text Text :=
  Dict.empty.set checksumMetaKey (computeChecksum env payload)

/-- `put_object`. -/
def putObject (env : Env) (location : ObjectStoreLocation) (payload : List UInt8) :
    S3M StoredObjectStat := do
  let metadata := checksumMetadata env payload
  if store.multipartThreshold ≤ payload.length then store.putMultipart location payload metadata
  else store.service.putObject location payload metadata
  return statOf env payload

/-- `get_object`. -/
def getObject (location : ObjectStoreLocation) : S3M (List UInt8) :=
  tryCatch (do
    let object ← store.service.getObject location
    return object.body) fun e =>
    match e with
    | .client code status =>
      throw (if isNotFound code status then
        .objectNotFound (location.bucket ++ '/' :: location.key) else e)
    | e => throw e

/-- `stat_object`: the checksum of an object that was written elsewhere is computed. -/
def statObject (env : Env) (location : ObjectStoreLocation) : S3M (Option StoredObjectStat) := do
  let head ← tryCatch (do
    let object ← store.service.headObject location
    return some object) fun e =>
    match e with
    | .client code status => if isNotFound code status then return none else throw e
    | e => throw e
  match head with
  | none => return none
  | some object =>
    match object.metadata.get checksumMetaKey with
    | some checksum => return some { sizeBytes := object.body.length, checksum }
    | none =>
      let data ← store.getObject location
      return some { sizeBytes := object.body.length, checksum := computeChecksum env data }

/-- `delete_object`. -/
def deleteObject (location : ObjectStoreLocation) : S3M Unit := store.service.deleteObject location

end S3ObjectStore

end AssetStore
