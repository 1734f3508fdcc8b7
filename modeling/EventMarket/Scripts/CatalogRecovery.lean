import EventMarket.Scripts.CatalogMigration

/-!
# Recovery of archives

Resuming an archive goes from stage to stage of its migration, and it may start from any of them:
what the directory of a stage lists can be read, and it passes the checks. At the end all responses
are compressed.

## Main definitions

* `Performs`: a client goes on by durable operations that keep a property of the directory.
* `Working`: a client with some of the responses migrated.

## Main results

* `Working.migrate`, `Working.migrateAll`: the migration of one source, and of all.
* `resume_stage`: resuming from any stage.
-/

namespace EventMarket.Scripts

open Foundations Gateway

variable {library : ArchiveLibrary} {limits : CatalogLimits} {disk first : Disk}
  {originals : List (String × ArchiveSource)} {requests : List ArchivedRequest}
  {body : String × ArchiveSource → List UInt8} {done : List String}
  {entry : String × ArchiveSource} {manifest : Manifest} {client : CatalogClient}

/-! ### Reading a stage -/

/-- **Every response of a stage** can be read, and it is the original one. -/
theorem Files.readable (hlaw : library.Lawful)
    (horiginals : Originals library first originals requests body)
    (h : Files library first originals body done disk) (hentry : entry ∈ originals) :
    ∃ stored, Readable library disk (staged library body done entry).1
      (staged library body done entry).2 (body entry) stored := by
  obtain ⟨stored, hreadable⟩ := horiginals.readable entry hentry
  by_cases hdone : entry.1 ∈ done
  · rw [staged_of_mem hdone]
    exact ⟨_, readArchivedResponse_zipped hlaw hreadable (h.plain entry hentry hdone)
      (h.zipped entry hentry hdone)⟩
  · rw [staged_of_not_mem hdone]
    exact ⟨stored, { hreadable with
      stored_eq := (h.kept entry hentry hdone).trans hreadable.stored_eq }⟩

/-- The size of the file of a response at a stage. -/
def stagedSize (library : ArchiveLibrary) (first : Disk)
    (body : String × ArchiveSource → List UInt8) (done : List String)
    (entry : String × ArchiveSource) : ℕ :=
  if entry.1 ∈ done then (library.compress (body entry)).length else fileSize first entry.1

theorem Files.size (h : Files library first originals body done disk) (hentry : entry ∈ originals) :
    fileSize disk (staged library body done entry).1 =
      stagedSize library first body done entry := by
  by_cases hdone : entry.1 ∈ done
  · rw [staged_of_mem hdone, stagedSize, if_pos hdone, fileSize, h.zipped entry hentry hdone]
  · rw [staged_of_not_mem hdone, stagedSize, if_neg hdone, fileSize, fileSize,
      h.kept entry hentry hdone]

/-- The migration of one response changes its own size only. -/
theorem tally_stagedSize_cons (horiginals : Originals library first originals requests body)
    (hentry : entry ∈ originals) (hplain : entry.2.isPlain = true) (hnew : entry.1 ∉ done) :
    tally (stagedSize library first body (entry.1 :: done)) originals + (body entry).length =
      tally (stagedSize library first body done) originals +
        (library.compress (body entry)).length := by
  obtain ⟨before, after, rfl⟩ := List.append_of_mem hentry
  have hothers : ∀ other ∈ before ++ after,
      stagedSize library first body (entry.1 :: done) other =
        stagedSize library first body done other := by
    intro other hother
    have hne := horiginals.middle_ne other hother
    simp only [stagedSize, List.mem_cons, hne, false_or]
  obtain ⟨stored, hreadable⟩ := horiginals.readable entry hentry
  have hold : stagedSize library first body done entry = (body entry).length := by
    rw [stagedSize, if_neg hnew, fileSize, hreadable.stored_eq, (hreadable.plain hplain).1]
  have hnext : stagedSize library first body (entry.1 :: done) entry =
      (library.compress (body entry)).length := if_pos List.mem_cons_self
  rw [tally_perm _ List.perm_middle, tally_perm _ List.perm_middle, tally_cons, tally_cons,
    tally_congr hothers, hold, hnext]
  omega

/-! ### Verifying a stage -/

/-- **Sources that can be read** pass, and their sizes are added up. -/
theorem verifySources_eq {sources : List (String × ArchiveSource)}
    (h : ∀ source ∈ sources, ∃ body, readArchivedResponse library disk source.1 source.2 =
      .ok body) :
    verifySources library disk sources =
      .ok ((tally (fun source => source.2.responseBytes.getD 0) sources : ℕ),
        (tally (fun source => fileSize disk source.1) sources : ℕ)) := by
  induction sources with
  | nil => rfl
  | cons source sources ih =>
    obtain ⟨⟨body, hbody⟩, hrest⟩ := List.forall_mem_cons.mp h
    rw [verifySources, hbody, ih hrest, tally_cons, tally_cons, Nat.cast_add, Nat.cast_add]
    rfl

theorem staged_source (library : ArchiveLibrary) (body : String × ArchiveSource → List UInt8)
    (done : List String) (entry : String × ArchiveSource) :
    (staged library body done entry).2.url = entry.2.url ∧
      (staged library body done entry).2.sha256 = entry.2.sha256 ∧
      (staged library body done entry).2.httpStatus = entry.2.httpStatus ∧
      (staged library body done entry).2.responseBytes = entry.2.responseBytes := by
  unfold staged
  split
  · exact ⟨rfl, rfl, rfl, rfl⟩
  · exact ⟨rfl, rfl, rfl, rfl⟩

theorem restaged_request (done : List String) (request : ArchivedRequest) :
    (restaged done request).url = request.url ∧
      (restaged done request).sha256 = request.sha256 ∧
      (restaged done request).httpStatus = request.httpStatus ∧
      (restaged done request).others = request.others := by
  unfold restaged
  split
  · exact ⟨rfl, rfl, rfl, rfl⟩
  · split
    · exact ⟨rfl, rfl, rfl, rfl⟩
    · exact ⟨rfl, rfl, rfl, rfl⟩

/-- The file of a request has the name of the staged source. -/
theorem restaged_file {request : ArchivedRequest} {file : String} {source : ArchiveSource}
    (hfile : request.file = some file) :
    (restaged done request).file = some (staged library body done (file, source)).1 := by
  unfold restaged staged
  rw [hfile]
  dsimp only
  by_cases hmem : file ∈ done
  · rw [if_pos hmem, if_pos hmem]
  · rw [if_neg hmem, if_neg hmem, hfile]

/-- A request without a file has none at any stage. -/
theorem restaged_no_file (horiginals : Originals library first originals requests body)
    (h : Files library first originals body done disk) {request : ArchivedRequest}
    (hfile : request.file = none ∨ request.file = some "") :
    (restaged done request).file = request.file := by
  unfold restaged
  rcases hfile with hfile | hfile
  · simp only [hfile]
  · have hnot : "" ∉ done := by
      intro hmem
      obtain ⟨entry, hentry, hname⟩ := h.named "" hmem
      obtain ⟨stored, hreadable⟩ := horiginals.readable entry hentry
      have harchived := hreadable.name_eq
      rw [hname] at harchived
      exact absurd harchived (by decide)
    simp only [hfile, if_neg hnot]

/-- **The requests of a stage** agree with their sources. -/
theorem Listed.verifyRequest (horiginals : Originals library first originals requests body)
    (hfiles : Files library first originals body done disk)
    (h : Listed library originals requests body done manifest) {request : ArchivedRequest}
    (hrequest : request ∈ requests) :
    verifyRequest manifest.sources (restaged done request) = .ok () := by
  unfold Scripts.verifyRequest
  by_cases hfile : request.file = none ∨ request.file = some ""
  · rw [restaged_no_file horiginals hfiles hfile]
    rcases hfile with hfile | hfile
    · rw [hfile]
    · rw [hfile]
      exact if_pos rfl
  · rw [not_or] at hfile
    obtain ⟨file, hsome⟩ := Option.ne_none_iff_exists'.mp hfile.1
    have hne : file ≠ "" := fun heq => hfile.2 (heq ▸ hsome)
    obtain ⟨source, hsource, hurl, hsha, hstatus⟩ :=
      horiginals.referred request hrequest file hsome hne
    have hmem := h.sources.mem_iff.mpr (List.mem_map_of_mem hsource)
    obtain ⟨hurl', hsha', hstatus', -⟩ := staged_source library body done (file, source)
    obtain ⟨hurlR, hshaR, hstatusR, -⟩ := restaged_request done request
    have hget : manifest.sources.get? (staged library body done (file, source)).1 =
        some (staged library body done (file, source)).2 := OrderedDict.get?_eq_some_iff.mpr hmem
    rw [@restaged_file library body done request file source hsome]
    dsimp only
    split
    · rfl
    · rw [hget]
      dsimp only
      rw [if_neg]
      rw [hurl', hsha', hstatus', hurlR, hshaR, hstatusR, hurl, hsha, hstatus]
      simp

/-! ### Durable progress -/

/-- A client goes on by durable operations, and a property of the directory holds before, between
and after them. -/
def Performs (P : Disk → Prop) (client next : CatalogClient) : Prop :=
  ∃ operations, next.operations = client.operations ++ operations ∧
    next.disk = run FileOperation.apply client.disk operations ∧
    Survives FileOperation.apply P client.disk operations

section Progress

variable {P : Disk → Prop} {next last : CatalogClient}

theorem Performs.refl (h : P client.disk) : Performs P client client :=
  ⟨[], (List.append_nil _).symm, rfl, survives_nil.mpr h⟩

theorem Performs.trans (h : Performs P client next) (hnext : Performs P next last) :
    Performs P client last := by
  obtain ⟨operations, hoperations, hdisk, hsurvives⟩ := h
  obtain ⟨more, hmore, hlast, hsurvivesNext⟩ := hnext
  rw [hdisk] at hlast hsurvivesNext
  refine ⟨operations ++ more, ?_, ?_, survives_append.mpr ⟨hsurvives, hsurvivesNext⟩⟩
  · rw [hmore, hoperations, List.append_assoc]
  · rw [hlast, run_append]

theorem performs_perform {operation : FileOperation} (hbefore : P client.disk)
    (hafter : P (operation.apply client.disk)) : Performs P client (client.perform operation) :=
  ⟨[operation], rfl, rfl, survives_cons.mpr ⟨hbefore, survives_nil.mpr hafter⟩⟩

end Progress

/-- The directory is at some stage of the migration. -/
def Migrating (library : ArchiveLibrary) (first : Disk) (originals : List (String × ArchiveSource))
    (requests : List ArchivedRequest) (body : String × ArchiveSource → List UInt8)
    (disk : Disk) : Prop :=
  ∃ done manifest, Stage library first originals requests body done manifest disk

/-- A stage reads no temporary file. -/
theorem Stage.temporary (horiginals : Originals library first originals requests body)
    (h : Stage library first originals requests body done manifest disk) (temporary : DiskEntry) :
    Stage library first originals requests body done manifest
      ((FileOperation.write temporaryName temporary).apply disk) where
  stored := (write_of_ne manifestName_ne _).trans h.stored
  listed := h.listed
  files := h.files.document horiginals fun _ _ hname => write_of_ne hname _

namespace CatalogClient

@[simp] theorem save_manifest (limits : CatalogLimits) (client : CatalogClient) :
    (client.save limits).manifest = client.manifest := by
  unfold save
  split <;> rfl

@[simp] theorem save_rawBytes (limits : CatalogLimits) (client : CatalogClient) :
    (client.save limits).rawBytes = client.rawBytes := by
  unfold save
  split <;> rfl

@[simp] theorem save_storedBytes (limits : CatalogLimits) (client : CatalogClient) :
    (client.save limits).storedBytes = client.storedBytes := by
  unfold save
  split <;> rfl

end CatalogClient

/-- **A save** goes from some stage to the stage of the manifest in memory. -/
theorem performs_save (horiginals : Originals library first originals requests body)
    (hdisk : Migrating library first originals requests body client.disk)
    (hlisted : Listed library originals requests body done client.manifest)
    (hfiles : Files library first originals body done client.disk) (limits : CatalogLimits) :
    Performs (Migrating library first originals requests body) client (client.save limits) ∧
      Stage library first originals requests body done client.manifest
        (client.save limits).disk := by
  unfold CatalogClient.save
  split
  · have hstage : Stage library first originals requests body done client.manifest
        ((FileOperation.write manifestName (.document client.manifest)).apply client.disk) :=
      ⟨write_self .., hlisted, hfiles.document horiginals fun _ hname _ => write_of_ne hname _⟩
    exact ⟨performs_perform hdisk ⟨done, _, hstage⟩, hstage⟩
  · obtain ⟨before, old, hold⟩ := hdisk
    have htemporary := hold.temporary horiginals (.document client.manifest)
    have hstage : Stage library first originals requests body done client.manifest
        ((FileOperation.rename temporaryName manifestName).apply
          ((FileOperation.write temporaryName (.document client.manifest)).apply client.disk)) := by
      refine ⟨?_, hlisted, hfiles.document horiginals fun name hmanifest hname => ?_⟩
      · exact (rename_new manifestName_ne).trans (write_self ..)
      · exact (rename_of_ne hname hmanifest).trans (write_of_ne hname _)
    exact ⟨(performs_perform ⟨before, old, hold⟩ ⟨before, old, htemporary⟩).trans
      (performs_perform ⟨before, old, htemporary⟩ ⟨done, _, hstage⟩), hstage⟩

/-! ### The migration of one source -/

/-- A client with some of the responses migrated: the directory and the manifest in memory are at
the stage, and the sizes are those of the files. -/
structure Working (library : ArchiveLibrary) (first : Disk)
    (originals : List (String × ArchiveSource)) (requests : List ArchivedRequest)
    (body : String × ArchiveSource → List UInt8) (done : List String)
    (client : CatalogClient) : Prop where
  stage : ∃ manifest, Stage library first originals requests body done manifest client.disk
  listed : Listed library originals requests body done client.manifest
  rawBytes_eq : client.rawBytes = (tally (fun entry => (body entry).length) originals : ℕ)
  storedBytes_eq : client.storedBytes = (tally (stagedSize library first body done) originals : ℕ)

theorem Working.migrating (h : Working library first originals requests body done client) :
    Migrating library first originals requests body client.disk := ⟨done, h.stage⟩

theorem Working.files (h : Working library first originals requests body done client) :
    Files library first originals body done client.disk := h.stage.elim fun _ hstage => hstage.files

/-- The compressed file is there afterwards. -/
theorem Working.writeStored (horiginals : Originals library first originals requests body)
    (h : Working library first originals requests body done client) (hentry : entry ∈ originals)
    (hplain : entry.2.isPlain = true) :
    ∃ next, client.writeStored (entry.1 ++ ".gz") (library.compress (body entry)) = .ok next ∧
      Performs (Migrating library first originals requests body) client next ∧
      Working library first originals requests body done next ∧
      next.disk (entry.1 ++ ".gz") = some (.file (library.compress (body entry))) := by
  unfold CatalogClient.writeStored
  rcases h.files.room entry hentry hplain with hnone | hsome
  · obtain ⟨manifest, hstage⟩ := h.stage
    have hnext : Stage library first originals requests body done manifest
        ((FileOperation.write (entry.1 ++ ".gz")
          (.file (library.compress (body entry)))).apply client.disk) :=
      ⟨(write_of_ne (gz_ne entry.1).1.symm _).trans hstage.stored, hstage.listed,
        hstage.files.write horiginals hentry hplain⟩
    rw [hnone]
    exact ⟨_, rfl, performs_perform h.migrating ⟨done, manifest, hnext⟩,
      ⟨⟨manifest, hnext⟩, h.listed, h.rawBytes_eq, h.storedBytes_eq⟩, write_self ..⟩
  · rw [hsome]
    dsimp only
    rw [if_neg (not_not.mpr rfl)]
    exact ⟨client, rfl, .refl h.migrating, h, hsome⟩

/-- **The commit** of a migration, when the compressed file is there. -/
theorem Working.commit (horiginals : Originals library first originals requests body)
    (h : Working library first originals requests body done client) (hentry : entry ∈ originals)
    (hplain : entry.2.isPlain = true) (hnew : entry.1 ∉ done)
    (hfile : client.disk (entry.1 ++ ".gz") = some (.file (library.compress (body entry))))
    (limits : CatalogLimits) :
    ∃ next, client.commit limits entry.1 (entry.1 ++ ".gz")
        (entry.2.zipped library (library.compress (body entry)))
        ((library.compress (body entry)).length - (body entry).length) = next ∧
      Performs (Migrating library first originals requests body) client next ∧
      Working library first originals requests body (entry.1 :: done) next := by
  have hname := horiginals.not_gzip hentry hplain
  have hfiles := h.files.next horiginals hentry hplain hfile
  -- the client when the manifest is saved
  obtain ⟨changed, hchanged⟩ : ∃ changed, ({ client with
      storedBytes := client.storedBytes +
        ((library.compress (body entry)).length - (body entry).length)
      manifest := { client.manifest with
        sources := (client.manifest.sources.set (entry.1 ++ ".gz")
          (entry.2.zipped library (library.compress (body entry)))).erase entry.1
        requests := client.manifest.requests.map (.follow entry.1 (entry.1 ++ ".gz")) } } :
      CatalogClient).updateSizes = changed := ⟨_, rfl⟩
  have hdisk : changed.disk = client.disk := by rw [← hchanged]; rfl
  have hoperations : changed.operations = client.operations := by rw [← hchanged]; rfl
  have hraw : changed.rawBytes = client.rawBytes := by rw [← hchanged]; rfl
  have hstored : changed.storedBytes = client.storedBytes +
      ((library.compress (body entry)).length - (body entry).length) := by rw [← hchanged]; rfl
  have hlisted : Listed library originals requests body (entry.1 :: done) changed.manifest := by
    rw [← hchanged]
    refine ⟨h.listed.version, h.listed.commit horiginals hentry hplain hnew, ?_⟩
    refine (congrArg _ h.listed.requests_eq).trans ?_
    rw [List.map_map]
    exact List.map_congr_left fun request _ => follow_restaged hname request
  obtain ⟨hsave, hstage⟩ := performs_save horiginals (hdisk ▸ h.migrating) hlisted
    (hdisk ▸ hfiles) limits
  have hlast : Stage library first originals requests body (entry.1 :: done) changed.manifest
      ((FileOperation.unlink entry.1).apply (changed.save limits).disk) :=
    ⟨(unlink_of_ne (horiginals.reserved entry hentry).symm).trans hstage.stored, hlisted,
      hstage.files.unlink horiginals hentry List.mem_cons_self⟩
  refine ⟨(changed.save limits).perform (.unlink entry.1), ?_, ?_, ?_⟩
  · rw [← hchanged]
    rfl
  · have hunlink : Performs (Migrating library first originals requests body)
        (changed.save limits) ((changed.save limits).perform (.unlink entry.1)) :=
      performs_perform ⟨_, _, hstage⟩ ⟨_, _, hlast⟩
    have hperforms := hsave.trans hunlink
    obtain ⟨operations, hmore, hnext, hsurvives⟩ := hperforms
    rw [hdisk] at hnext hsurvives
    exact ⟨operations, hoperations ▸ hmore, hnext, hsurvives⟩
  · have hsize := tally_stagedSize_cons horiginals hentry hplain hnew
    refine ⟨⟨_, hlast⟩, ?_, ?_, ?_⟩
    · exact (CatalogClient.save_manifest limits changed).symm ▸ hlisted
    · exact (CatalogClient.save_rawBytes limits changed).trans (hraw.trans h.rawBytes_eq)
    · refine (CatalogClient.save_storedBytes limits changed).trans ?_
      rw [hstored, h.storedBytes_eq]
      omega

/-- **The migration of one source.** -/
theorem Working.migrate (hlaw : library.Lawful)
    (horiginals : Originals library first originals requests body)
    (h : Working library first originals requests body done client) (hentry : entry ∈ originals)
    (hplain : entry.2.isPlain = true) (hnew : entry.1 ∉ done) (limits : CatalogLimits) :
    ∃ next, client.migrate library limits entry = .ok next ∧
      Performs (Migrating library first originals requests body) client next ∧
      Working library first originals requests body (entry.1 :: done) next := by
  obtain ⟨stored, hreadable⟩ := horiginals.readable entry hentry
  have hread : readArchivedResponse library client.disk entry.1 entry.2 = .ok (body entry) :=
    readArchivedResponse_eq_ok.mpr ⟨stored, { hreadable with
      stored_eq := (h.files.kept entry hentry hnew).trans hreadable.stored_eq }⟩
  obtain ⟨written, hwritten, hperforms, hworking, hfile⟩ :=
    h.writeStored horiginals hentry hplain
  have hzipped : readArchivedResponse library written.disk (entry.1 ++ ".gz")
      (entry.2.zipped library (library.compress (body entry))) = .ok (body entry) :=
    readArchivedResponse_eq_ok.mpr ⟨_, readArchivedResponse_zipped hlaw hreadable hplain hfile⟩
  obtain ⟨next, hnext, hcommit, hdone⟩ :=
    hworking.commit horiginals hentry hplain hnew hfile limits
  refine ⟨next, ?_, hperforms.trans hcommit, hdone⟩
  unfold CatalogClient.migrate
  dsimp only
  rw [if_neg (by simp [hplain]), hread]
  simp only [CatalogClient.attempt, Except.mapError, bind, Except.bind, hwritten, hzipped, hnext]

/-- **The migration of all sources.** Compressed ones stay as they are. -/
theorem Working.migrateAll (hlaw : library.Lawful)
    (horiginals : Originals library first originals requests body)
    {rest : List (String × ArchiveSource)}
    (h : Working library first originals requests body done client)
    (hrest : ∀ source ∈ rest, source.2.isPlain = true → source ∈ originals ∧ source.1 ∉ done)
    (hnodup : (rest.map Prod.fst).Nodup) (limits : CatalogLimits) :
    ∃ next all, rest.foldlM (CatalogClient.migrate library limits) client = .ok next ∧
      Performs (Migrating library first originals requests body) client next ∧
      Working library first originals requests body all next ∧ (∀ name ∈ done, name ∈ all) ∧
      ∀ source ∈ rest, source.2.isPlain = true → source.1 ∈ all := by
  induction rest generalizing done client with
  | nil => exact ⟨client, done, rfl, .refl h.migrating, h, fun _ hname => hname, by simp⟩
  | cons source rest ih =>
    obtain ⟨hsource, hothers⟩ := List.forall_mem_cons.mp hrest
    rw [List.map_cons, List.nodup_cons] at hnodup
    rw [List.foldlM_cons]
    by_cases hplain : source.2.isPlain = true
    · obtain ⟨horiginal, hnew⟩ := hsource hplain
      obtain ⟨next, hnext, hperforms, hworking⟩ :=
        h.migrate hlaw horiginals horiginal hplain hnew limits
      have hremaining : ∀ other ∈ rest, other.2.isPlain = true →
          other ∈ originals ∧ other.1 ∉ source.1 :: done := by
        intro other hother hotherPlain
        obtain ⟨hmem, hnot⟩ := hothers other hother hotherPlain
        refine ⟨hmem, fun hdone => ?_⟩
        rcases List.mem_cons.mp hdone with hsame | hdone
        · exact hnodup.1 (hsame ▸ List.mem_map_of_mem hother)
        · exact hnot hdone
      obtain ⟨last, all, hlast, hmore, hall, hkept, hcovered⟩ :=
        ih hworking hremaining hnodup.2
      rw [hnext]
      exact ⟨last, all, hlast, hperforms.trans hmore, hall,
        fun name hname => hkept name (List.mem_cons_of_mem _ hname),
        List.forall_mem_cons.mpr ⟨fun _ => hkept _ List.mem_cons_self, hcovered⟩⟩
    · obtain ⟨last, all, hlast, hmore, hall, hkept, hcovered⟩ := ih h hothers hnodup.2
      have hstay : client.migrate library limits source = .ok client :=
        if_pos (Bool.eq_false_iff.mpr hplain)
      rw [hstay]
      exact ⟨last, all, hlast, hmore, hall, hkept,
        List.forall_mem_cons.mpr ⟨fun hsame => absurd hsame hplain, hcovered⟩⟩

/-! ### Resuming from a stage -/

/-- The size of the file of a response after the migration. -/
def finalSize (library : ArchiveLibrary) (first : Disk)
    (body : String × ArchiveSource → List UInt8) (entry : String × ArchiveSource) : ℕ :=
  if entry.2.isPlain then (library.compress (body entry)).length else fileSize first entry.1

/-- The sizes of a stage are those of its files. -/
theorem Stage.tally_fileSize
    (h : Stage library first originals requests body done manifest disk) :
    tally (fun source => fileSize disk source.1) manifest.sources.entries =
      tally (stagedSize library first body done) originals := by
  rw [tally_perm _ h.listed.sources, tally_map]
  exact tally_congr fun entry hentry => h.files.size hentry

/-- What is on the disk passes the checks, with the sizes of the stage. -/
theorem Stage.verifySources (hlaw : library.Lawful)
    (horiginals : Originals library first originals requests body)
    (h : Stage library first originals requests body done manifest disk) :
    verifySources library disk manifest.sources.entries =
      .ok ((tally (fun entry => (body entry).length) originals : ℕ),
        (tally (stagedSize library first body done) originals : ℕ)) := by
  have hread : ∀ source ∈ manifest.sources.entries,
      ∃ body, readArchivedResponse library disk source.1 source.2 = .ok body := by
    intro source hsource
    obtain ⟨entry, hentry, rfl⟩ := List.mem_map.mp (h.listed.sources.mem_iff.mp hsource)
    exact ⟨_, readArchivedResponse_eq_ok.mpr (h.files.readable hlaw horiginals hentry)⟩
  have hraw : tally (fun source => source.2.responseBytes.getD 0) manifest.sources.entries =
      tally (fun entry => (body entry).length) originals := by
    rw [tally_perm _ h.listed.sources, tally_map]
    refine tally_congr fun entry hentry => ?_
    obtain ⟨stored, hreadable⟩ := horiginals.readable entry hentry
    obtain ⟨-, -, -, hsize⟩ := staged_source library body done entry
    rw [Function.comp_apply, hsize, hreadable.size_eq]
    rfl
  rw [verifySources_eq hread, hraw, h.tally_fileSize]

theorem Stage.loadManifest (h : Stage library first originals requests body done manifest disk) :
    loadManifest disk = .ok manifest := by
  rw [Scripts.loadManifest, h.stored]
  refine if_neg fun hversion => ?_
  rcases h.listed.version with hone | htwo
  · exact hversion.1 hone
  · exact hversion.2 htwo

/-- The plain sources of a stage are originals that were not migrated. -/
theorem Listed.plain_mem (h : Listed library originals requests body done manifest)
    {source : String × ArchiveSource} (hsource : source ∈ manifest.sources.entries)
    (hplain : source.2.isPlain = true) : source ∈ originals ∧ source.1 ∉ done := by
  obtain ⟨entry, hentry, rfl⟩ := List.mem_map.mp (h.sources.mem_iff.mp hsource)
  by_cases hdone : entry.1 ∈ done
  · rw [staged_of_mem hdone] at hplain
    exact absurd hplain (by simp [ArchiveSource.isPlain, ArchiveSource.zipped])
  · rw [staged_of_not_mem hdone]
    exact ⟨hentry, hdone⟩

/-- **Resuming from any stage** succeeds and goes through stages, until all responses are
migrated. -/
theorem resume_stage (hlaw : library.Lawful)
    (horiginals : Originals library first originals requests body)
    (h : Stage library first originals requests body done manifest disk)
    (hdecoded : (tally (fun entry => (body entry).length) originals : ℤ) ≤ limits.maxDecodedBytes)
    (harchived : (tally (finalSize library first body) originals : ℤ) ≤ limits.maxArchiveBytes) :
    ∃ client all, resume library limits disk = .ok client ∧
      Survives FileOperation.apply (Migrating library first originals requests body) disk
        client.operations ∧
      client.disk = run FileOperation.apply disk client.operations ∧
      Stage library first originals requests body all client.manifest client.disk ∧
      (∀ entry ∈ originals, entry.2.isPlain = true → entry.1 ∈ all) ∧
      client.manifest.rawBytes = some (tally (fun entry => (body entry).length) originals : ℤ) ∧
      client.manifest.decodedBytes = some (tally (fun entry => (body entry).length) originals : ℤ) ∧
      client.manifest.storedBytes =
        some (tally (stagedSize library first body all) originals : ℤ) := by
  obtain ⟨start, hstart⟩ : ∃ start : CatalogClient, start = {
      disk
      rawBytes := (tally (fun entry => (body entry).length) originals : ℕ)
      storedBytes := (tally (stagedSize library first body done) originals : ℕ)
      manifest := { manifest with
        schemaVersion := 2
        requestPolicy := { manifest.requestPolicy with
          maximumArchiveBytes := some limits.maxArchiveBytes
          maximumDecodedBytes := some limits.maxDecodedBytes } } } := ⟨_, rfl⟩
  have hworking : Working library first originals requests body done start := by
    rw [hstart]
    exact ⟨⟨manifest, h⟩, ⟨Or.inr rfl, h.listed.sources, h.listed.requests_eq⟩, rfl, rfl⟩
  obtain ⟨migrated, all, hmigrated, hperforms, hall, hkept, hcovered⟩ :=
    hworking.migrateAll hlaw horiginals (fun _ hsource hplain => h.listed.plain_mem hsource hplain)
      manifest.sources.nodup limits
  have hcomplete : ∀ entry ∈ originals, entry.2.isPlain = true → entry.1 ∈ all := by
    intro entry hentry hplain
    by_cases hdone : entry.1 ∈ done
    · exact hkept _ hdone
    · have hsource := h.listed.sources.mem_iff.mpr (List.mem_map_of_mem hentry)
      rw [staged_of_not_mem hdone] at hsource
      exact hcovered entry hsource hplain
  have hfinal : tally (stagedSize library first body all) originals =
      tally (finalSize library first body) originals := by
    refine tally_congr fun entry hentry => ?_
    unfold stagedSize finalSize
    by_cases hplain : entry.2.isPlain = true
    · rw [if_pos (hcomplete entry hentry hplain), if_pos hplain]
    · rw [if_neg fun hdone => hplain (hall.files.plain entry hentry hdone), if_neg hplain]
  have hrequests : ∃ results, manifest.requests.mapM (verifyRequest manifest.sources) =
      .ok results := by
    refine exists_mapM_eq_ok fun request hrequest => ⟨(), ?_⟩
    rw [h.listed.requests_eq] at hrequest
    obtain ⟨original, horiginal, rfl⟩ := List.mem_map.mp hrequest
    exact h.listed.verifyRequest horiginals h.files horiginal
  obtain ⟨results, hresults⟩ := hrequests
  have hmigratedListed : Listed library originals requests body all migrated.updateSizes.manifest :=
    ⟨hall.listed.version, hall.listed.sources, hall.listed.requests_eq⟩
  obtain ⟨hsave, hstage⟩ := @performs_save _ _ _ _ _ _ migrated.updateSizes horiginals
    hall.migrating
    hmigratedListed hall.files limits
  have hbudget : ¬ limits.maxArchiveBytes < migrated.storedBytes := by
    rw [hall.storedBytes_eq, hfinal]
    exact not_lt.mpr harchived
  have hresume : resume library limits disk = .ok (migrated.updateSizes.save limits) := by
    unfold resume
    rw [hstart] at hmigrated
    rw [h.loadManifest]
    simp only [refused, Except.mapError, bind, Except.bind, h.verifySources hlaw horiginals,
      if_neg (not_lt.mpr hdecoded), hresults, hmigrated]
    exact if_neg hbudget
  have hstartEmpty : start.operations = [] := by rw [hstart]
  have hstartDisk : start.disk = disk := by rw [hstart]
  obtain ⟨operations, hoperations, hdisk, hsurvives⟩ := hperforms.trans hsave
  rw [hstartEmpty, List.nil_append] at hoperations
  rw [hstartDisk, ← hoperations] at hdisk hsurvives
  refine ⟨_, all, hresume, hsurvives, hdisk, ?_, hcomplete, ?_, ?_, ?_⟩
  all_goals rw [CatalogClient.save_manifest]
  · exact hstage
  · exact congrArg some hall.rawBytes_eq
  · exact congrArg some hall.rawBytes_eq
  · exact congrArg some hall.storedBytes_eq

end EventMarket.Scripts
