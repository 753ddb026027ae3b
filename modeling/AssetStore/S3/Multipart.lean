import AssetStore.S3

/-! A multipart upload against a single put. The loop cuts the payload at every part size and sends
the pieces under the numbers from one on; the completion lists them in that order, so the service
puts the payload together again. Until then the stored objects are not touched. -/

namespace AssetStore

open Lib

/-! ### Requests -/

/-- The request may fail with the exception. -/
def S3Service.Fails (service : S3Service) (r : S3Request) (e : S3Error) : Prop :=
  ∃ journal, service.fails journal r = some e

section Requests

variable {service : S3Service} {β : Type} {r : S3Request}
  {serve : S3Tables → Except S3Error (β × S3Tables)}
  {s : S3State}

theorem S3Service.request_eq_ok {b : β} {s' : S3State} : service.request r serve s = .ok b s' ↔
    service.fails s.journal r = none ∧ ∃ t, serve s.toS3Tables = .ok (b, t) ∧
      s' = { t with journal := s.journal ++ [(r, none)] } := by
  unfold S3Service.request
  cases service.fails s.journal r with
  | some e => simp
  | none =>
    cases serve s.toS3Tables with
    | error e => simp
    | ok p => simp [Prod.ext_iff, eq_comm]

theorem S3Service.request_eq_error {e : S3Error} {s' : S3State} :
    service.request r serve s = .error e s' ↔
    (service.fails s.journal r).elim (serve s.toS3Tables) .error = .error e ∧
      s' = { s with journal := s.journal ++ [(r, some e)] } := by
  unfold S3Service.request
  cases (service.fails s.journal r).elim (serve s.toS3Tables) .error with
  | error e' =>
    simp only [EStateM.Result.error.injEq, Except.error.injEq]
    constructor
    · rintro ⟨rfl, rfl⟩
      exact ⟨rfl, rfl⟩
    · rintro ⟨rfl, rfl⟩
      exact ⟨rfl, rfl⟩
  | ok p => simp

/-- A request that the service can serve returns, or fails and leaves a note of it. -/
theorem S3Service.request_cases {b : β} {t : S3Tables} (hserve : serve s.toS3Tables = .ok (b, t)) :
    service.request r serve s = .ok b { t with journal := s.journal ++ [(r, none)] } ∨
      ∃ e, service.Fails r e ∧
        service.request r serve s = .error e { s with journal := s.journal ++ [(r, some e)] } := by
  cases hfails : service.fails s.journal r with
  | none => exact .inl (S3Service.request_eq_ok.mpr ⟨hfails, t, hserve, rfl⟩)
  | some e => exact .inr ⟨e, ⟨_, hfails⟩, S3Service.request_eq_error.mpr ⟨by rw [hfails]; rfl, rfl⟩⟩

end Requests

/-! ### The parts -/

/-- The requests that upload the pieces, the first under the number `n`. -/
def partRequests (location : ObjectStoreLocation) (uploadId : Text) (n : Nat)
    (pieces : List (List UInt8)) :
    List S3Request :=
  (pieces.zipIdx n).map fun p => .uploadPart location uploadId p.2 p.1

/-- The list of the pieces for the completion. -/
def S3Service.tagged (service : S3Service) (n : Nat) (pieces : List (List UInt8)) :
    List CompletedPart :=
  (pieces.zipIdx n).map fun p => { etag := service.etag p.1, partNumber := p.2 }

/-- The stored parts with the pieces. -/
def filed (stored : Dict Nat (List UInt8)) (n : Nat) (pieces : List (List UInt8)) :
    Dict Nat (List UInt8) :=
  (pieces.zipIdx n).foldl (fun stored p => stored.set p.2 p.1) stored

section Parts

variable {service : S3Service} {stored : Dict Nat (List UInt8)} {n k : Nat}
  {pieces : List (List UInt8)}

theorem filed_cons (piece : List UInt8) :
    filed stored n (piece :: pieces) = filed (stored.set n piece) (n + 1) pieces := rfl

theorem filed_below (h : k < n) : (filed stored n pieces).get k = stored.get k := by
  induction pieces generalizing n stored with
  | nil => rfl
  | cons piece pieces ih =>
    rw [filed_cons, ih (by omega), Dict.get_set_ne _ _ (by omega)]

theorem filed_get {p : List UInt8 × Nat} (h : p ∈ pieces.zipIdx n) :
    (filed stored n pieces).get p.2 = some p.1 := by
  induction pieces generalizing n stored with
  | nil => cases h
  | cons piece pieces ih =>
    rw [filed_cons]
    rcases List.mem_cons.mp (List.zipIdx_cons ▸ h) with rfl | h
    · rw [filed_below (Nat.lt_succ_self n), Dict.get_set_self]
    · exact ih h

theorem tagged_numbers :
    (service.tagged n pieces).map CompletedPart.partNumber = List.range' n pieces.length := by
  rw [S3Service.tagged, List.map_map]
  exact List.zipIdx_map_snd n pieces

/-- The completion finds every listed piece, in the order of the list. -/
theorem mapM_listedPart {upload : S3Upload}
    (h : ∀ p ∈ pieces.zipIdx n, upload.parts.get p.2 = some p.1) :
    (service.tagged n pieces).mapM (service.listedPart upload) = .ok pieces := by
  induction pieces generalizing n with
  | nil => rfl
  | cons piece pieces ih =>
    have hfirst : service.listedPart upload { etag := service.etag piece, partNumber := n } =
        .ok piece := by
      rw [S3Service.listedPart]
      simp only [h (piece, n) (by simp)]
      simp [someOr, raiseIf, bind, Except.bind, pure, Except.pure]
    have hrest := ih (n := n + 1) fun p hp =>
      h p (by rw [List.zipIdx_cons]; exact List.mem_cons_of_mem _ hp)
    rw [S3Service.tagged, List.zipIdx_cons, List.map_cons, List.mapM_cons, hfirst]
    change (do
      let rest ← (service.tagged (n + 1) pieces).mapM (service.listedPart upload)
      pure (piece :: rest)) = _
    rw [hrest]
    rfl

end Parts

/-! ### Runs -/

/-- What the requests `sent` have made of the state, while the upload is in progress: its parts are
now `stored`, and nothing else has changed. -/
structure Uploading (upload : S3Upload) (uploadId : Text) (s s' : S3State) (sent : S3Journal)
    (stored : Dict Nat (List UInt8)) : Prop where
  objects : s'.objects = s.objects
  others : s'.uploads.erase uploadId = s.uploads.erase uploadId
  upload : s'.uploads.get uploadId = some { upload with parts := stored }
  journal : s'.journal = s.journal ++ sent

section Runs

variable {store : S3ObjectStore} {location : ObjectStoreLocation} {uploadId : Text}
  {upload : S3Upload}
  {payload : List UInt8} {s s1 s2 : S3State} {sent sent' : S3Journal}
  {stored stored' : Dict Nat (List UInt8)}

/-- A request that fails only leaves a note. -/
theorem Uploading.note (h : Uploading upload uploadId s s1 sent stored) (r : S3Request)
    (e : S3Error) :
    Uploading upload uploadId s { s1 with journal := s1.journal ++ [(r, some e)] }
      (sent ++ [(r, some e)]) stored :=
  ⟨h.objects, h.others, h.upload, by rw [← List.append_assoc, ← h.journal]⟩

theorem findUpload_eq_ok {t : S3Tables} (h : t.uploads.get uploadId = some upload)
    (hlocation : upload.location = location) :
    S3Service.findUpload t location uploadId = .ok upload := by
  rw [S3Service.findUpload, h]
  simp [someOr, raiseIf, hlocation, bind, Except.bind, pure, Except.pure]

/-- One part is stored under its number, or its request fails. -/
theorem uploadPart_run (h : Uploading upload uploadId s s1 sent stored)
    (hlocation : upload.location = location)
    (n : Nat) (piece : List UInt8) :
    (∃ s2, store.service.uploadPart location uploadId n piece s1 =
      .ok (store.service.etag piece) s2 ∧
      Uploading upload uploadId s s2 (sent ++ [(.uploadPart location uploadId n piece, none)])
        (stored.set n piece)) ∨
    ∃ e s2, store.service.uploadPart location uploadId n piece s1 = .error e s2 ∧
      store.service.Fails (.uploadPart location uploadId n piece) e ∧
      Uploading upload uploadId s s2 (sent ++ [(.uploadPart location uploadId n piece, some e)])
        stored := by
  have hserve : store.service.storePart location uploadId n piece s1.toS3Tables =
      .ok (store.service.etag piece, { s1.toS3Tables with
        uploads := s1.uploads.set uploadId { upload with parts := stored.set n piece } }) := by
    rw [S3Service.storePart, findUpload_eq_ok h.upload hlocation]
    rfl
  rcases @S3Service.request_cases store.service _ (.uploadPart location uploadId n piece)
    _ _ _ _ hserve with
    hok | ⟨e, hfails, herror⟩
  · exact .inl ⟨_, hok, h.objects, (Dict.erase_set _ _ _).trans h.others,
      Dict.get_set_self _ _ _, by
      rw [← List.append_assoc, ← h.journal]⟩
  · exact .inr ⟨e, _, herror, hfails, h.note _ e⟩

/-- The pieces that the loop cuts at these starts. -/
def S3ObjectStore.piecesAt (store : S3ObjectStore) (payload : List UInt8) (starts : List Nat) :
    List (List UInt8) :=
  starts.map fun start => slice payload start (start + store.partSize)

/-- The requests, as they were answered. -/
def answered (requests : List S3Request) : S3Journal := requests.map fun r => (r, none)

/-- The loop stores every piece and lists it, or it stops at the first request that fails. -/
theorem uploadParts_run (h : Uploading upload uploadId s s1 sent stored)
    (hlocation : upload.location = location)
    (starts : List Nat) (n : Nat) (parts : List CompletedPart) :
    (∃ s2, store.uploadParts location uploadId payload starts n parts s1 =
        .ok (parts ++ store.service.tagged n (store.piecesAt payload starts)) s2 ∧
      Uploading upload uploadId s s2
        (sent ++ answered (partRequests location uploadId n (store.piecesAt payload starts)))
        (filed stored n (store.piecesAt payload starts))) ∨
    ∃ e s2 done failed stored', store.uploadParts location uploadId payload starts n parts s1 =
      .error e s2 ∧
      store.service.Fails failed e ∧
      done ++ [failed] <+: partRequests location uploadId n (store.piecesAt payload starts) ∧
      Uploading upload uploadId s s2 (sent ++ answered done ++ [(failed, some e)]) stored' := by
  induction starts generalizing n parts s1 sent stored with
  | nil =>
    refine .inl ⟨s1, ?_, ?_⟩
    · change EStateM.Result.ok parts s1 = .ok (parts ++ []) s1
      rw [List.append_nil]
    · change Uploading upload uploadId s s1 (sent ++ []) stored
      rwa [List.append_nil]
  | cons start starts ih =>
    let piece := slice payload start (start + store.partSize)
    have hrequests : partRequests location uploadId n (store.piecesAt payload (start :: starts)) =
        .uploadPart location uploadId n piece ::
          partRequests location uploadId (n + 1) (store.piecesAt payload starts) := rfl
    have htagged : store.service.tagged n (store.piecesAt payload (start :: starts)) =
        { etag := store.service.etag piece, partNumber := n } ::
          store.service.tagged (n + 1) (store.piecesAt payload starts) := rfl
    rcases uploadPart_run h hlocation n piece with
      ⟨s2, hpart, hnext⟩ | ⟨e, s2, hpart, hfails, hnext⟩
    · have hstep : store.uploadParts location uploadId payload (start :: starts) n parts s1 =
          store.uploadParts location uploadId payload starts (n + 1)
            (parts ++ [{ etag := store.service.etag piece, partNumber := n }]) s2 := by
        rw [S3ObjectStore.uploadParts]
        exact bind_of_ok hpart
      rw [hstep, hrequests, htagged]
      rcases ih hnext (n + 1) (parts ++
        [{ etag := store.service.etag piece, partNumber := n }]) with
        ⟨s3, hrest, hdone⟩ | ⟨e, s3, done, failed, stored', hrest, hfails, hbefore, hdone⟩
      · refine .inl ⟨s3, by rw [hrest, List.append_assoc]; rfl, ?_⟩
        rw [List.append_assoc] at hdone
        exact hdone
      · refine .inr ⟨e, s3, .uploadPart location uploadId n piece :: done, failed, stored', hrest,
          hfails, ?_, ?_⟩
        · exact List.cons_prefix_cons.mpr ⟨rfl, hbefore⟩
        · rw [List.append_assoc sent] at hdone
          exact hdone
    · refine .inr ⟨e, s2, [], .uploadPart location uploadId n piece, stored, ?_, hfails, ?_, ?_⟩
      · rw [S3ObjectStore.uploadParts]
        exact bind_of_error hpart
      · rw [hrequests]
        exact List.cons_prefix_cons.mpr ⟨rfl, List.nil_prefix⟩
      · rw [answered, List.map_nil, List.append_nil]
        exact hnext

/-- The completion stores the object and ends the upload, or it fails. -/
theorem complete_run {pieces : List (List UInt8)}
    (h : Uploading upload uploadId s s1 sent (filed .empty 1 pieces))
    (hlocation : upload.location = location) (hne : pieces ≠ []) :
    (∃ s2, store.service.completeMultipartUpload location uploadId
      (store.service.tagged 1 pieces) s1 = .ok () s2 ∧
      s2.objects = s.objects.set location { body := pieces.flatten, metadata := upload.metadata } ∧
      s2.uploads = s.uploads.erase uploadId ∧
      s2.journal = s.journal ++ sent ++
        [(.completeMultipartUpload location uploadId (store.service.tagged 1 pieces), none)]) ∨
    ∃ e s2, store.service.completeMultipartUpload location uploadId
      (store.service.tagged 1 pieces) s1 = .error e s2 ∧
      store.service.Fails (.completeMultipartUpload location uploadId
        (store.service.tagged 1 pieces)) e ∧
      Uploading upload uploadId s s2 (sent ++
        [(.completeMultipartUpload location uploadId (store.service.tagged 1 pieces), some e)])
          (filed .empty 1 pieces) := by
  have hnonempty : store.service.tagged 1 pieces ≠ [] := by
    intro hnil
    have hlength := congrArg List.length (congrArg (List.map CompletedPart.partNumber) hnil)
    rw [tagged_numbers, List.length_range', List.map_nil, List.length_nil,
      List.length_eq_zero_iff] at hlength
    exact hne hlength
  have hascending :
      ((store.service.tagged 1 pieces).map CompletedPart.partNumber).Pairwise (· < ·) := by
    rw [tagged_numbers]
    exact List.pairwise_lt_range'
  have hserve :
      store.service.joinParts location uploadId (store.service.tagged 1 pieces) s1.toS3Tables =
      .ok ((), { objects := s1.objects.set location { body := pieces.flatten,
                                                      metadata := upload.metadata }
                 uploads := s1.uploads.erase uploadId }) := by
    have hlisted : (store.service.tagged 1 pieces).mapM
        (store.service.listedPart { upload with parts := filed .empty 1 pieces }) = .ok pieces :=
      mapM_listedPart fun p hp => filed_get hp
    rw [S3Service.joinParts, findUpload_eq_ok h.upload hlocation]
    simp only [raiseIf, hnonempty, hascending, not_true_eq_false, if_false, bind,
      Except.bind, hlisted]
    rfl
  rcases @S3Service.request_cases store.service _
      (.completeMultipartUpload location uploadId (store.service.tagged 1 pieces))
        _ _ _ _ hserve with
    hok | ⟨e, hfails, herror⟩
  · exact .inl ⟨_, hok, by rw [h.objects], h.others, by rw [h.journal]⟩
  · exact .inr ⟨e, _, herror, hfails, h.note _ e⟩

/-- The abort leaves the service without the upload, as it was before, unless it fails itself. -/
theorem abort_run (h : Uploading upload uploadId s s1 sent stored)
    (hlocation : upload.location = location) :
    ∃ outcome s2, (store.service.abortMultipartUpload location uploadId s1 =
        (match outcome with | none => .ok () s2 | some e => .error e s2)) ∧
      s2.objects = s.objects ∧ (outcome = none → s2.uploads = s.uploads.erase uploadId) ∧
      s2.journal = s.journal ++ sent ++ [(.abortMultipartUpload location uploadId, outcome)] := by
  have hserve : S3Service.dropUpload location uploadId s1.toS3Tables =
      .ok ((), { s1.toS3Tables with uploads := s1.uploads.erase uploadId }) := by
    rw [S3Service.dropUpload, findUpload_eq_ok h.upload hlocation]
    rfl
  rcases @S3Service.request_cases store.service _ (.abortMultipartUpload location uploadId)
    _ _ _ _ hserve with
    hok | ⟨e, -, herror⟩
  · exact ⟨none, _, hok, h.objects, fun _ => h.others, by rw [h.journal]⟩
  · exact ⟨some e, _, herror, h.objects, fun hnone => (by cases hnone), by rw [h.journal]⟩

/-- What `_put_multipart` can come to: the upload is refused, or it stores the payload, or it is
aborted at the first request that fails, and then the failure of the abort would hide the one before
it. -/
inductive MultipartRun (store : S3ObjectStore) (location : ObjectStoreLocation)
    (payload : List UInt8)
    (metadata : Dict Text Text) (s : S3State) : EStateM.Result S3Error S3State Unit → Prop
  | refused {e : S3Error} {s' : S3State}
      (fails : store.service.Fails (.createMultipartUpload location metadata) e)
      (tables : s'.toS3Tables = s.toS3Tables)
      (journal : s'.journal = s.journal ++ [(.createMultipartUpload location metadata, some e)]) :
      MultipartRun store location payload metadata s (.error e s')
  | completed {uploadId : Text} {s' : S3State}
      (objects : s'.objects = s.objects.set location { body := payload, metadata })
      (uploads : s'.uploads = s.uploads)
      (journal : s'.journal = s.journal ++ (.createMultipartUpload location metadata, none) ::
        (answered (partRequests location uploadId 1 (slices store.partSize payload)) ++
          [(.completeMultipartUpload location uploadId
            (store.service.tagged 1 (slices store.partSize payload)), none)])) :
      MultipartRun store location payload metadata s (.ok () s')
  | aborted {uploadId : Text} {done : List S3Request} {failed : S3Request} {e : S3Error}
      {outcome : Option S3Error}
      {s' : S3State} (fails : store.service.Fails failed e)
      (before : done ++ [failed] <+: partRequests location uploadId 1
        (slices store.partSize payload) ++
        [.completeMultipartUpload location uploadId
          (store.service.tagged 1 (slices store.partSize payload))])
      (objects : s'.objects = s.objects) (uploads : outcome = none → s'.uploads = s.uploads)
      (journal : s'.journal = s.journal ++ (.createMultipartUpload location metadata, none) ::
        (answered done ++ [(failed, some e), (.abortMultipartUpload location uploadId, outcome)])) :
      MultipartRun store location payload metadata s (.error (outcome.getD e) s')

theorem create_run (location : ObjectStoreLocation) (metadata : Dict Text Text) (s : S3State) :
    (∃ uploadId s1, store.service.createMultipartUpload location metadata s = .ok uploadId s1 ∧
      s.uploads.erase uploadId = s.uploads ∧
      Uploading { location, metadata, parts := .empty } uploadId s s1
        [(.createMultipartUpload location metadata, none)] .empty) ∨
    ∃ e s1, store.service.createMultipartUpload location metadata s = .error e s1 ∧
      store.service.Fails (.createMultipartUpload location metadata) e ∧
        s1.toS3Tables = s.toS3Tables ∧
      s1.journal = s.journal ++ [(.createMultipartUpload location metadata, some e)] := by
  have hserve : store.service.openUpload location metadata s.toS3Tables =
      .ok (store.service.newId s.toS3Tables, _) := rfl
  rcases @S3Service.request_cases store.service _ (.createMultipartUpload location metadata)
    _ _ _ _ hserve with
    hok | ⟨e, hfails, herror⟩
  · exact .inl ⟨_, _, hok, Dict.erase_of_new (store.service.newId_fresh s.toS3Tables), rfl,
      Dict.erase_set _ _ _, Dict.get_set_self _ _ _, rfl⟩
  · exact .inr ⟨e, _, herror, hfails, rfl, rfl⟩

/-- The loop and the completion store the payload, or stop at the first request that fails. -/
theorem sendParts_run (hsize : 0 < store.partSize) (hpayload : payload ≠ [])
    (h : Uploading upload uploadId s s1 sent .empty) (hlocation : upload.location = location) :
    (∃ s2, store.sendParts location uploadId payload s1 = .ok () s2 ∧
      s2.objects = s.objects.set location { body := payload, metadata := upload.metadata } ∧
      s2.uploads = s.uploads.erase uploadId ∧
      s2.journal = s.journal ++ (sent ++
        answered (partRequests location uploadId 1 (slices store.partSize payload))) ++
        [(.completeMultipartUpload location uploadId
          (store.service.tagged 1 (slices store.partSize payload)), none)]) ∨
    ∃ e s2 done failed stored, store.sendParts location uploadId payload s1 = .error e s2 ∧
      store.service.Fails failed e ∧
      done ++ [failed] <+: partRequests location uploadId 1 (slices store.partSize payload) ++
        [.completeMultipartUpload location uploadId
          (store.service.tagged 1 (slices store.partSize payload))] ∧
      Uploading upload uploadId s s2 (sent ++ answered done ++ [(failed, some e)]) stored := by
  have hbody : store.sendParts location uploadId payload s1 = (do
      let parts ← store.uploadParts location uploadId payload
        (steps payload.length store.partSize) 1 []
      store.service.completeMultipartUpload location uploadId parts : S3M Unit) s1 := by
    rw [S3ObjectStore.sendParts]
    exact bind_of_ok (attempt_of_ok (raiseIf_eq_ok.mpr hsize.ne' : raiseIf _ _ = Except.ok ()))
  have hpieces : slices store.partSize payload ≠ [] := by
    intro hnil
    have hflat := flatten_slices hsize payload
    rw [hnil] at hflat
    exact hpayload hflat.symm
  rcases uploadParts_run h hlocation (steps payload.length store.partSize) 1 [] with
    ⟨s2, hloop, hdone⟩ | ⟨e, s2, done, failed, stored, hloop, hfails, hbefore, hdone⟩
  · rw [hbody, bind_of_ok hloop, List.nil_append]
    rcases complete_run hdone hlocation hpieces with ⟨s3, hcomplete, hobjects, huploads, hjournal⟩ |
      ⟨e, s3, hcomplete, hfails, hlast⟩
    · refine .inl ⟨s3, hcomplete, ?_, huploads, hjournal⟩
      rw [hobjects]
      exact congrArg (fun body => s.objects.set location { body, metadata := upload.metadata })
        (flatten_slices hsize payload)
    · exact .inr ⟨e, s3, _, _, _, hcomplete, hfails, List.prefix_refl _, hlast⟩
  · rw [hbody, bind_of_error hloop]
    exact .inr ⟨e, s2, done, failed, stored, rfl, hfails,
      hbefore.trans (List.prefix_append _ _), hdone⟩

theorem putMultipart_run (hsize : 0 < store.partSize) (hpayload : payload ≠ [])
    (metadata : Dict Text Text)
    (s : S3State) : MultipartRun store location payload metadata s
      (store.putMultipart location payload metadata s) := by
  rw [S3ObjectStore.putMultipart]
  rcases create_run location metadata s with ⟨uploadId, s1, hcreate, hfresh, hopen⟩ |
    ⟨e, s1, hcreate, hfails, htables, hjournal⟩
  swap
  · rw [bind_of_error hcreate]
    exact .refused hfails htables hjournal
  rw [bind_of_ok hcreate]
  rcases sendParts_run hsize hpayload hopen rfl with
    ⟨s2, hsend, hobjects, huploads, hjournal⟩ | ⟨e, s2, done, failed, stored, hsend, hfails,
      hbefore, hfailed⟩
  · rw [tryCatch_of_ok hsend]
    exact .completed hobjects (huploads.trans hfresh) (by rw [hjournal, List.append_assoc]; rfl)
  · -- whatever fails here is followed by the abort
    obtain ⟨outcome, s3, habort, hobjects, huploads, hjournal⟩ := abort_run hfailed rfl
    rw [tryCatch_of_error hsend]
    have hresult : (do
        store.service.abortMultipartUpload location uploadId
        throw e : S3M Unit) s2 = .error (outcome.getD e) s3 := by
      cases outcome with
      | none => exact bind_of_ok habort
      | some e' => exact bind_of_error habort
    rw [hresult]
    refine .aborted hfails hbefore hobjects (fun hnone => (huploads hnone).trans hfresh) ?_
    rw [hjournal]
    simp only [List.append_assoc, List.cons_append, List.nil_append]

end Runs

/-! ### A put -/

/-- The part that a request uploads. -/
def uploadedPart : S3Request → Option (List UInt8 × Nat)
  | .uploadPart _ _ n piece => some (piece, n)
  | _ => none

/-- The parts that were uploaded, or tried. -/
def S3Journal.parts (journal : S3Journal) : List (List UInt8 × Nat) :=
  (journal.map Prod.fst).filterMap uploadedPart

/-- The upload that a request for a part or a completion belongs to. -/
def uploadOf : S3Request → Option Text
  | .uploadPart _ uploadId _ _ | .completeMultipartUpload _ uploadId _ => some uploadId
  | _ => none

/-- The pieces of a payload: none is empty, all but the last have the part size. -/
structure PiecesOf (partSize : Nat) (payload : List UInt8) (pieces : List (List UInt8)) : Prop where
  whole : pieces.flatten = payload
  nonempty : ∀ piece ∈ pieces, piece ≠ []
  full : ∀ piece ∈ pieces.dropLast, piece.length = partSize
  bounded : ∀ piece ∈ pieces, piece.length ≤ partSize

/-- The store with the payload in one request that does not fail. -/
def S3ObjectStore.single (store : S3ObjectStore) (payload : List UInt8) : S3ObjectStore :=
  { store with service := { store.service with fails := fun _ _ => none },
               multipartThreshold := payload.length + 1 }

/-- What a put has come to, against a single put of the payload in the state `s`. Where it returns,
it returns and leaves the same; where it raises, the stored objects are as before. The parts that
it uploaded are the pieces of the payload, numbered from one on; and where the request for a part
or the completion fails, the upload is aborted and the put raises that error (or the one of the
abort). -/
structure LikeSinglePut (store : S3ObjectStore) (env : Env) (location : ObjectStoreLocation)
    (payload : List UInt8)
    (s : S3State) (result : EStateM.Result S3Error S3State StoredObjectStat) : Prop where
  returned : ∀ stat s', result = .ok stat s' →
    (∃ s1, (store.single payload).putObject env location payload s = .ok stat s1 ∧
      s'.toS3Tables = s1.toS3Tables) ∧
    stat = statOf env payload ∧
    s'.objects = s.objects.set location
      { body := payload, metadata := S3ObjectStore.checksumMetadata env payload }
  raised : ∀ e s', result = .error e s' → s'.objects = s.objects
  parts : ∃ pieces sent, PiecesOf store.partSize payload pieces ∧
    (final result).journal = s.journal ++ sent ∧
    sent.parts <+: pieces.zipIdx 1 ∧
    (store.multipartThreshold ≤ payload.length → ∀ stat s', result = .ok stat s' →
      sent.parts = pieces.zipIdx 1)
  aborted : ∀ sent failed e uploadId, (final result).journal = s.journal ++ sent →
    (failed, some e) ∈ sent →
    uploadOf failed = some uploadId → ∃ outcome s',
      (.abortMultipartUpload location uploadId, outcome) ∈ sent ∧
      result = .error (outcome.getD e) s' ∧ (outcome = none → s'.uploads = s.uploads)

section Put

variable {store : S3ObjectStore} {env : Env} {location : ObjectStoreLocation} {payload : List UInt8}
  {s : S3State}

theorem piecesOf_slices (hsize : 0 < store.partSize) (payload : List UInt8) :
    PiecesOf store.partSize payload (slices store.partSize payload) :=
  ⟨flatten_slices hsize payload, fun _ => ne_nil_of_mem_slices hsize,
    fun _ => length_of_mem_dropLast_slices hsize, fun _ => length_le_of_mem_slices hsize⟩

theorem single_run (s : S3State) : ∃ s1, (store.single payload).putObject env location payload s =
    .ok (statOf env payload) s1 ∧ s1.objects =
      s.objects.set location { body := payload,
                               metadata := S3ObjectStore.checksumMetadata env payload } ∧
      s1.uploads = s.uploads := by
  have hthreshold : ¬(store.single payload).multipartThreshold ≤ payload.length := by
    change ¬payload.length + 1 ≤ payload.length
    omega
  rw [S3ObjectStore.putObject, if_neg hthreshold]
  exact ⟨_, rfl, rfl, rfl⟩

theorem answered_requests (requests : List S3Request) :
    (answered requests).map Prod.fst = requests := by
  rw [answered, List.map_map]
  exact List.map_id _

/-- The requests for the pieces are those of the numbered pieces. -/
theorem filterMap_partRequests (uploadId : Text) (n : Nat) (pieces : List (List UInt8)) :
    (partRequests location uploadId n pieces).filterMap uploadedPart = pieces.zipIdx n := by
  rw [partRequests, List.filterMap_map]
  exact List.filterMap_some

/-- A request for a part or the completion belongs to the upload. -/
theorem uploadOf_request {uploadId : Text} {n : Nat} {pieces : List (List UInt8)}
    {parts : List CompletedPart} {r : S3Request}
    (h : r ∈ partRequests location uploadId n pieces ++
      [.completeMultipartUpload location uploadId parts]) :
    uploadOf r = some uploadId := by
  rcases List.mem_append.mp h with h | h
  · obtain ⟨p, -, rfl⟩ := List.mem_map.mp h
    rfl
  · obtain rfl := List.mem_singleton.mp h
    rfl

/-- A put that stored the payload has come to the same as the single one. -/
theorem returned_like_single {stat : StoredObjectStat} {s' : S3State}
    (hstat : stat = statOf env payload)
    (hobjects : s'.objects = s.objects.set location
      { body := payload, metadata := S3ObjectStore.checksumMetadata env payload })
        (huploads : s'.uploads = s.uploads) :
    ∃ s1, (store.single payload).putObject env location payload s = .ok stat s1 ∧
      s'.toS3Tables = s1.toS3Tables := by
  obtain ⟨s1, hsingle, hobjects1, huploads1⟩ := @single_run store env location payload s
  refine ⟨s1, hstat ▸ hsingle, ?_⟩
  cases s' with
  | mk t journal =>
    cases s1 with
    | mk t1 journal1 =>
      cases t
      cases t1
      simp_all

/-- Below the threshold the put is a single request. -/
theorem putObject_below (hbelow : ¬store.multipartThreshold ≤ payload.length)
    (hsize : 0 < store.partSize) (s : S3State) :
    LikeSinglePut store env location payload s (store.putObject env location payload s) := by
  rw [S3ObjectStore.putObject, if_neg hbelow, S3Service.putObject]
  let metadata := S3ObjectStore.checksumMetadata env payload
  have hserve : S3Service.storeObject location payload metadata s.toS3Tables = .ok ((), _) := rfl
  -- the only request is neither for a part nor a completion
  have hnone : ∀ {sent : S3Journal} {answer failed e uploadId},
      s.journal ++ [(S3Request.putObject location payload metadata, answer)] = s.journal ++ sent →
      (failed, some e) ∈ sent → uploadOf failed ≠ some uploadId := by
    intro sent answer failed e uploadId hsent hmem hof
    obtain rfl := List.append_cancel_left hsent
    obtain ⟨rfl, -⟩ := Prod.ext_iff.mp (List.mem_singleton.mp hmem)
    cases hof
  have hpieces := piecesOf_slices hsize payload
  rcases @S3Service.request_cases store.service _ (.putObject location payload metadata) _ s
    _ _ hserve with
    hput | ⟨e, -, hput⟩
  · rw [bind_of_ok hput]
    refine ⟨fun stat s' hok => ?_, fun e s' hfails => (by cases hfails),
      ⟨_, _, hpieces, rfl, List.nil_prefix, fun hlarge => absurd hlarge hbelow⟩,
      fun sent failed e uploadId hsent hmem hof => absurd hof (hnone hsent hmem)⟩
    cases hok
    exact ⟨returned_like_single rfl rfl rfl, rfl, rfl⟩
  · rw [bind_of_error hput]
    refine ⟨fun stat s' hok => (by cases hok), fun e s' hfails => ?_,
      ⟨_, _, hpieces, rfl, List.nil_prefix, fun hlarge => absurd hlarge hbelow⟩,
      fun sent failed e uploadId hsent hmem hof => absurd hof (hnone hsent hmem)⟩
    cases hfails
    rfl

/-- The parts that were sent before and with the request that failed are the first of the pieces. -/
theorem sentParts_prefix {uploadId : Text} {pieces : List (List UInt8)} {parts : List CompletedPart}
    {done : List S3Request} {failed : S3Request}
    (h : done ++ [failed] <+: partRequests location uploadId 1 pieces ++
      [.completeMultipartUpload location uploadId parts]) :
    (done ++ [failed]).filterMap uploadedPart <+: pieces.zipIdx 1 := by
  have hparts := h.filterMap uploadedPart
  rw [@List.filterMap_append _ _ (partRequests _ _ _ _), filterMap_partRequests] at hparts
  exact (List.append_nil (pieces.zipIdx 1)) ▸ hparts

theorem payload_ne_nil (hthreshold : 0 < store.multipartThreshold)
    (hlarge : store.multipartThreshold ≤ payload.length) :
    payload ≠ [] := by
  rintro rfl
  exact absurd (Nat.le_zero.mp hlarge) hthreshold.ne'

/-- From the threshold on it is what the multipart upload comes to. -/
theorem putObject_multipart (hthreshold : 0 < store.multipartThreshold)
    (hlarge : store.multipartThreshold ≤ payload.length) (hsize : 0 < store.partSize)
    (s : S3State) :
    LikeSinglePut store env location payload s (store.putObject env location payload s) := by
  have hpieces := piecesOf_slices hsize payload
  rw [S3ObjectStore.putObject, if_pos hlarge]
  let metadata := S3ObjectStore.checksumMetadata env payload
  have hrun : MultipartRun store location payload metadata s _ :=
    putMultipart_run hsize (payload_ne_nil hthreshold hlarge) metadata s
  generalize hresult : store.putMultipart location payload metadata s = result at hrun
  cases hrun with
  | @refused e s' _ htables hjournal =>
    rw [bind_of_error hresult]
    refine ⟨fun stat s' hok => (by cases hok), fun e s' hfails => ?_,
      ⟨_, _, hpieces, hjournal, List.nil_prefix,
      fun _ stat s' hok => (by cases hok)⟩, fun sent failed e uploadId hsent hmem hof => ?_⟩
    · cases hfails
      exact congrArg S3Tables.objects htables
    · obtain rfl := List.append_cancel_left (hjournal.symm.trans hsent)
      obtain ⟨rfl, -⟩ := Prod.ext_iff.mp (List.mem_singleton.mp hmem)
      cases hof
  | @completed uploadId s' hobjects huploads hjournal =>
    rw [bind_of_ok hresult]
    have hsentParts : S3Journal.parts ((S3Request.createMultipartUpload location metadata, none) ::
        (answered (partRequests location uploadId 1 (slices store.partSize payload)) ++
          [(.completeMultipartUpload location uploadId
            (store.service.tagged 1 (slices store.partSize payload)), none)])) =
        (slices store.partSize payload).zipIdx 1 := by
      rw [S3Journal.parts, List.map_cons, List.map_append, answered_requests,
        List.filterMap_cons_none rfl, List.filterMap_append, filterMap_partRequests]
      exact List.append_nil _
    refine ⟨fun stat s' hok => ?_, fun e s' hfails => (by cases hfails), ⟨_, _, hpieces, hjournal,
      hsentParts ▸ List.prefix_refl _, fun _ stat s' _ => hsentParts⟩,
        fun sent failed e uploadId hsent hmem hof => ?_⟩
    · cases hok
      exact ⟨returned_like_single rfl hobjects huploads, rfl, hobjects⟩
    · -- every request was answered
      obtain rfl := List.append_cancel_left (hjournal.symm.trans hsent)
      simp [answered] at hmem
  | @aborted uploadId done failed e outcome s' _ hbefore hobjects huploads hjournal =>
    rw [bind_of_error hresult]
    refine ⟨fun stat s' hok => (by cases hok), fun e s' hfails => ?_, ⟨_, _, hpieces, hjournal, ?_,
      fun _ stat s' hok => (by cases hok)⟩, fun sent failed' e' uploadId' hsent hmem hof => ?_⟩
    · cases hfails
      exact hobjects
    · rw [S3Journal.parts, List.map_cons, List.map_append, answered_requests,
        List.filterMap_cons_none rfl, List.filterMap_append]
      have hsentParts := sentParts_prefix hbefore
      rw [List.filterMap_append] at hsentParts
      exact hsentParts
    · obtain rfl := List.append_cancel_left (hjournal.symm.trans hsent)
      -- the requests before the one that failed were answered, and the abort is for no part
      rcases List.mem_cons.mp hmem with hmem | hmem
      · cases hmem
      rcases List.mem_append.mp hmem with hmem | hmem
      · simp [answered] at hmem
      rcases List.mem_cons.mp hmem with hmem | hmem
      · cases hmem
        have hid := uploadOf_request (hbefore.mem
          (List.mem_append_right _ (List.mem_singleton_self failed)))
        obtain rfl := Option.some.inj (hid.symm.trans hof)
        exact ⟨outcome, s', by simp, rfl, huploads⟩
      · obtain ⟨rfl, -⟩ := Prod.ext_iff.mp (List.mem_singleton.mp hmem)
        cases hof

/-- Where no request fails the put returns. -/
theorem putObject_returns (hthreshold : 0 < store.multipartThreshold) (hsize : 0 < store.partSize)
    (hquiet : ∀ journal r, store.service.fails journal r = none) (s : S3State) :
    ∃ s', store.putObject env location payload s = .ok (statOf env payload) s' := by
  have hnever : ∀ {r e}, ¬store.service.Fails r e := by
    rintro r e ⟨journal, hfails⟩
    rw [hquiet] at hfails
    cases hfails
  let metadata := S3ObjectStore.checksumMetadata env payload
  by_cases hlarge : store.multipartThreshold ≤ payload.length
  · rw [S3ObjectStore.putObject, if_pos hlarge]
    have hrun : MultipartRun store location payload metadata s _ :=
      putMultipart_run hsize (payload_ne_nil hthreshold hlarge) metadata s
    generalize hresult : store.putMultipart location payload metadata s = result at hrun
    cases hrun with
    | refused hfails => exact absurd hfails hnever
    | aborted hfails => exact absurd hfails hnever
    | completed =>
      rw [bind_of_ok hresult]
      exact ⟨_, rfl⟩
  · rw [S3ObjectStore.putObject, if_neg hlarge, S3Service.putObject]
    have hserve : S3Service.storeObject location payload metadata s.toS3Tables = .ok ((), _) := rfl
    rcases @S3Service.request_cases store.service _ (.putObject location payload metadata) _ s
      _ _ hserve with
      hput | ⟨e, hfails, -⟩
    · rw [bind_of_ok hput]
      exact ⟨_, rfl⟩
    · exact absurd hfails hnever

end Put

/-- A put is as good as a single one, whatever requests fail; and where none fails, it returns. -/
theorem multipart_like_single (store : S3ObjectStore) (env : Env) (location : ObjectStoreLocation)
    (payload : List UInt8) (hthreshold : 1 ≤ store.multipartThreshold) (hsize : 1 ≤ store.partSize)
    (s : S3State) :
    LikeSinglePut store env location payload s (store.putObject env location payload s) ∧
      ((∀ journal r, store.service.fails journal r = none) →
        ∃ s', store.putObject env location payload s = .ok (statOf env payload) s') := by
  refine ⟨?_, fun hquiet => putObject_returns hthreshold hsize hquiet s⟩
  by_cases hlarge : store.multipartThreshold ≤ payload.length
  · exact putObject_multipart hthreshold hlarge hsize s
  · exact putObject_below hlarge hsize s

/-- An upload id that is longer than all others. -/
def longerId (t : S3Tables) : Text :=
  List.replicate ((t.uploads.keys.map List.length).foldr max 0 + 1) 'u'

theorem longerId_fresh (t : S3Tables) : t.uploads.get (longerId t) = none := by
  have hlongest : ∀ keys : List Text, ∀ k ∈ keys, k.length ≤
      (keys.map List.length).foldr max 0 := by
    intro keys k hk
    exact List.le_max_of_le (List.mem_map_of_mem hk) le_rfl
  by_contra hsome
  have hkey := (t.uploads.mem_keys _).mpr (Option.isSome_iff_ne_none.mpr hsome)
  have hle := hlongest _ _ hkey
  rw [longerId, List.length_replicate] at hle
  omega

/-- A service that answers every request. -/
def quietService : S3Service where
  fails _ _ := none
  etag body := body.map fun b => Char.ofNat b.toNat
  newId := longerId
  newId_fresh := longerId_fresh

/-- A store of small parts: five bytes are sent in three. -/
def smallParts : S3ObjectStore where
  service := quietService
  multipartThreshold := 2
  partSize := 2

/-- A service without objects and uploads. -/
def newBucket : S3State where
  objects := .empty
  uploads := .empty
  journal := []

theorem multipart_like_single_smallParts :
    LikeSinglePut smallParts plainEnv { bucket := "b".toList, key := "k".toList }
      [1, 2, 3, 4, 5] newBucket
        (smallParts.putObject plainEnv { bucket := "b".toList, key := "k".toList }
          [1, 2, 3, 4, 5] newBucket) ∧
      ∃ s', smallParts.putObject plainEnv { bucket := "b".toList, key := "k".toList }
        [1, 2, 3, 4, 5] newBucket =
        .ok (statOf plainEnv [1, 2, 3, 4, 5]) s' := by
  have hput := multipart_like_single smallParts plainEnv { bucket := "b".toList, key := "k".toList }
    [1, 2, 3, 4, 5]
    (by decide) (by decide) newBucket
  exact ⟨hput.1, hput.2 fun _ _ => rfl⟩

end AssetStore
