import EventMarket.Scripts.CatalogRecovery

/-!
# Crashes of a migration

A valid archive may be interrupted between any two durable operations of its migration, and
started again, as often as one likes. Every archive that is left behind has the responses and the
requests of the first one, and resuming it completes the migration.

## Main definitions

* `originalBody`: what a response of an archive decodes to.
* `ValidArchive`: an archive that can be migrated.
* `SameResponse`, `SameRequest`, `Preserved`: an archive has what an earlier one had.
* `afterCrashes`: the directory after some interrupted attempts.

## Main results

* `Stage.preserved`: a stage of the migration has what the archive had.
* `migration_crash_safe`: every interruption leaves a readable archive that can be resumed.
-/

namespace EventMarket.Scripts

open Foundations Gateway

variable {library : ArchiveLibrary} {limits : CatalogLimits} {disk first later : Disk}
  {manifest next : Manifest} {body : String × ArchiveSource → List UInt8} {done : List String}

/-! ### Valid archives -/

/-- What a response of an archive decodes to, and nothing if it cannot be read. -/
def originalBody (library : ArchiveLibrary) (disk : Disk) (entry : String × ArchiveSource) :
    List UInt8 :=
  match readArchivedResponse library disk entry.1 entry.2 with
  | .ok body => body
  | .error _ => []

theorem originalBody_eq {entry : String × ArchiveSource} {body : List UInt8}
    (h : readArchivedResponse library disk entry.1 entry.2 = .ok body) :
    originalBody library disk entry = body := by
  rw [originalBody, h]

/-- **A valid archive.** Its responses can be read and its requests agree with them, the names of
the compressed files are free or hold just these files, and the budgets suffice. -/
structure ValidArchive (library : ArchiveLibrary) (limits : CatalogLimits) (disk : Disk)
    (manifest : Manifest) : Prop where
  stored : disk manifestName = some (.document manifest)
  version : manifest.schemaVersion = 1 ∨ manifest.schemaVersion = 2
  readable : ∀ entry ∈ manifest.sources.entries,
    ∃ body, readArchivedResponse library disk entry.1 entry.2 = .ok body
  verified : ∀ request ∈ manifest.requests, verifyRequest manifest.sources request = .ok ()
  free : ∀ entry ∈ manifest.sources.entries, entry.2.isPlain = true →
    ∀ other ∈ manifest.sources.entries, other.1 ≠ entry.1 ++ ".gz"
  room : ∀ entry ∈ manifest.sources.entries, entry.2.isPlain = true →
    disk (entry.1 ++ ".gz") = none ∨ disk (entry.1 ++ ".gz") =
      some (.file (library.compress (originalBody library disk entry)))
  decoded : (tally (fun entry => (originalBody library disk entry).length)
    manifest.sources.entries : ℤ) ≤ limits.maxDecodedBytes
  archived : (tally (finalSize library disk (originalBody library disk))
    manifest.sources.entries : ℤ) ≤ limits.maxArchiveBytes

theorem verifyRequest_source {sources : OrderedDict String ArchiveSource}
    {request : ArchivedRequest} {file : String} (h : verifyRequest sources request = .ok ())
    (hfile : request.file = some file) (hne : file ≠ "") :
    ∃ source, (file, source) ∈ sources.entries ∧ source.url = request.url ∧
      source.sha256 = request.sha256 ∧ source.httpStatus = request.httpStatus := by
  unfold verifyRequest at h
  rw [hfile] at h
  dsimp only at h
  rw [if_neg hne] at h
  split at h
  · exact nomatch h
  next source hsource =>
    split at h
    · exact nomatch h
    next hmatch =>
      rw [not_or, not_or, not_not, not_not, not_not] at hmatch
      exact ⟨source, OrderedDict.get?_eq_some_iff.mp hsource, hmatch⟩

theorem ValidArchive.originals (h : ValidArchive library limits disk manifest) :
    Originals library disk manifest.sources.entries manifest.requests
      (originalBody library disk) where
  nodup := manifest.sources.nodup
  readable entry hentry := by
    obtain ⟨body, hbody⟩ := h.readable entry hentry
    rw [originalBody_eq hbody]
    exact readArchivedResponse_eq_ok.mp hbody
  reserved entry hentry hname := by
    obtain ⟨body, hbody⟩ := h.readable entry hentry
    obtain ⟨stored, hreadable⟩ := readArchivedResponse_eq_ok.mp hbody
    have hstored := hreadable.stored_eq
    rw [hname, h.stored] at hstored
    exact nomatch hstored
  single := h.free
  referred request hrequest file hfile hne :=
    verifyRequest_source (h.verified request hrequest) hfile hne

/-- A valid archive is the first stage of its migration. -/
theorem ValidArchive.stage (h : ValidArchive library limits disk manifest) :
    Stage library disk manifest.sources.entries manifest.requests (originalBody library disk) []
      manifest disk where
  stored := h.stored
  listed := {
    version := h.version
    sources := by
      rw [List.map_congr_left fun entry _ => staged_of_not_mem List.not_mem_nil, List.map_id']
    requests_eq := by
      have hsame : ∀ request ∈ manifest.requests, restaged [] request = request := by
        intro request _
        unfold restaged
        split
        · rfl
        · exact if_neg List.not_mem_nil
      rw [List.map_congr_left hsame, List.map_id'] }
  files := {
    kept := fun _ _ _ => rfl
    room := h.room
    zipped := fun _ _ hdone => absurd hdone List.not_mem_nil
    plain := fun _ _ hdone => absurd hdone List.not_mem_nil
    named := fun _ hdone => absurd hdone List.not_mem_nil }

/-! ### What an archive keeps -/

/-- A response is that of the first archive, under its name or that of the compressed file. It can
be read, with its recorded hash and length, and decodes to the same. -/
structure SameResponse (library : ArchiveLibrary) (first later : Disk)
    (entry other : String × ArchiveSource) : Prop where
  name : other.1 = entry.1 ∨ other.1 = entry.1 ++ ".gz"
  url : other.2.url = entry.2.url
  httpStatus : other.2.httpStatus = entry.2.httpStatus
  sha256 : other.2.sha256 = entry.2.sha256
  responseBytes : other.2.responseBytes = entry.2.responseBytes
  read : ∃ body, readArchivedResponse library first entry.1 entry.2 = .ok body ∧
    readArchivedResponse library later other.1 other.2 = .ok body ∧
    other.2.sha256 = some (library.sha256 body) ∧ other.2.responseBytes = some body.length

/-- A request is that of the first archive, and it refers to the same response. -/
structure SameRequest (library : ArchiveLibrary) (first later : Disk) (manifest next : Manifest)
    (request other : ArchivedRequest) : Prop where
  url : other.url = request.url
  sha256 : other.sha256 = request.sha256
  httpStatus : other.httpStatus = request.httpStatus
  others : other.others = request.others
  no_file : request.file = none ∨ request.file = some "" → other.file = request.file
  file : ∀ file, request.file = some file → file ≠ "" → ∃ source file' source',
    manifest.sources.get? file = some source ∧ other.file = some file' ∧
      next.sources.get? file' = some source' ∧
      SameResponse library first later (file, source) (file', source')

/-- **An archive has what the first one had**: its manifest lists the same responses, in some order,
and the same requests. -/
structure Preserved (library : ArchiveLibrary) (first : Disk) (manifest : Manifest) (later : Disk)
    (next : Manifest) : Prop where
  listed : loadManifest later = .ok next
  responses : ∃ sources, next.sources.entries.Perm sources ∧
    List.Forall₂ (SameResponse library first later) manifest.sources.entries sources
  requests : List.Forall₂ (SameRequest library first later manifest next) manifest.requests
    next.requests
  verified : ∀ request ∈ next.requests, verifyRequest next.sources request = .ok ()

/-- A response at a stage is the original one. -/
theorem Stage.sameResponse (hlaw : library.Lawful)
    (horiginals : Originals library first manifest.sources.entries manifest.requests body)
    (h : Stage library first manifest.sources.entries manifest.requests body done next later)
    {entry : String × ArchiveSource} (hentry : entry ∈ manifest.sources.entries) :
    SameResponse library first later entry (staged library body done entry) := by
  obtain ⟨hurl, hsha, hstatus, hsize⟩ := staged_source library body done entry
  obtain ⟨stored, hreadable⟩ := h.files.readable hlaw horiginals hentry
  refine ⟨?_, hurl, hstatus, hsha, hsize, body entry,
    readArchivedResponse_eq_ok.mpr (horiginals.readable entry hentry),
    readArchivedResponse_eq_ok.mpr ⟨stored, hreadable⟩, hreadable.sha256_eq, hreadable.size_eq⟩
  by_cases hdone : entry.1 ∈ done
  · rw [staged_of_mem hdone]
    exact Or.inr rfl
  · rw [staged_of_not_mem hdone]
    exact Or.inl rfl

/-- A request at a stage refers to the response that it referred to. -/
theorem Stage.sameRequest (hlaw : library.Lawful)
    (horiginals : Originals library first manifest.sources.entries manifest.requests body)
    (h : Stage library first manifest.sources.entries manifest.requests body done next later)
    {request : ArchivedRequest} (hrequest : request ∈ manifest.requests) :
    SameRequest library first later manifest next request (restaged done request) := by
  obtain ⟨hurl, hsha, hstatus, hothers⟩ := restaged_request done request
  refine ⟨hurl, hsha, hstatus, hothers, restaged_no_file horiginals h.files, ?_⟩
  intro file hfile hne
  obtain ⟨source, hsource, -⟩ := horiginals.referred request hrequest file hfile hne
  refine ⟨source, _, (staged library body done (file, source)).2,
    OrderedDict.get?_eq_some_iff.mpr hsource, restaged_file hfile,
    OrderedDict.get?_eq_some_iff.mpr ?_, h.sameResponse hlaw horiginals hsource⟩
  exact h.listed.sources.mem_iff.mpr (List.mem_map_of_mem hsource)

/-- **A stage of the migration** has what the archive had. -/
theorem Stage.preserved (hlaw : library.Lawful)
    (horiginals : Originals library first manifest.sources.entries manifest.requests body)
    (h : Stage library first manifest.sources.entries manifest.requests body done next later) :
    Preserved library first manifest later next where
  listed := h.loadManifest
  responses := by
    refine ⟨_, h.listed.sources, List.forall₂_map_right_iff.mpr (List.forall₂_same.mpr ?_)⟩
    exact fun entry hentry => h.sameResponse hlaw horiginals hentry
  requests := by
    rw [h.listed.requests_eq]
    refine List.forall₂_map_right_iff.mpr (List.forall₂_same.mpr ?_)
    exact fun request hrequest => h.sameRequest hlaw horiginals hrequest
  verified request hrequest := by
    rw [h.listed.requests_eq] at hrequest
    obtain ⟨original, horiginal, rfl⟩ := List.mem_map.mp hrequest
    exact h.listed.verifyRequest horiginals h.files horiginal

/-- When all plain responses are migrated, all are compressed. -/
theorem Stage.compressed
    (horiginals : Originals library first manifest.sources.entries manifest.requests body)
    (h : Stage library first manifest.sources.entries manifest.requests body done next later)
    (hall : ∀ entry ∈ manifest.sources.entries, entry.2.isPlain = true → entry.1 ∈ done) :
    ∀ entry ∈ next.sources.entries, entry.2.encoding = some "gzip" := by
  intro source hsource
  obtain ⟨entry, hentry, rfl⟩ := List.mem_map.mp (h.listed.sources.mem_iff.mp hsource)
  by_cases hplain : entry.2.isPlain = true
  · rw [staged_of_mem (hall entry hentry hplain)]
    rfl
  · have hdone : entry.1 ∉ done := fun hdone => hplain (h.files.plain entry hentry hdone)
    obtain ⟨stored, hreadable⟩ := horiginals.readable entry hentry
    rw [staged_of_not_mem hdone]
    exact (hreadable.stored_size (Bool.eq_false_iff.mpr hplain)).2

/-- The originals have the same size at every stage. -/
theorem Stage.tally_originalBody (hlaw : library.Lawful)
    (horiginals : Originals library first manifest.sources.entries manifest.requests body)
    (h : Stage library first manifest.sources.entries manifest.requests body done next later) :
    tally (fun entry => (originalBody library later entry).length) next.sources.entries =
      tally (fun entry => (body entry).length) manifest.sources.entries := by
  rw [tally_perm _ h.listed.sources, tally_map]
  refine tally_congr fun entry hentry => congrArg List.length ?_
  exact originalBody_eq
    (readArchivedResponse_eq_ok.mpr (h.files.readable hlaw horiginals hentry))

/-! ### Crashes -/

/-- The directory after some attempts to resume, each of which stopped after a number of durable
operations. -/
def afterCrashes (library : ArchiveLibrary) (limits : CatalogLimits) (disk : Disk)
    (crashes : List ℕ) : Disk :=
  run (interrupted FileOperation.apply fun disk => operationsOf (resume library limits disk)) disk
    crashes

/-- **Crash safety of the migration.** However often the migration of a valid archive is
interrupted, the archive that is left has the responses and the requests of the first one. Resuming
it completes: all responses are compressed, they and the requests are still those of the first
archive, and the totals are the sizes of the originals and of the files. -/
theorem migration_crash_safe (hlaw : library.Lawful) (h : ValidArchive library limits disk manifest)
    (crashes : List ℕ) :
    (∃ next, Preserved library disk manifest (afterCrashes library limits disk crashes) next) ∧
      ∃ client, resume library limits (afterCrashes library limits disk crashes) = .ok client ∧
        client.disk = run FileOperation.apply (afterCrashes library limits disk crashes)
          client.operations ∧
        Preserved library disk manifest client.disk client.manifest ∧
        (∀ entry ∈ client.manifest.sources.entries, entry.2.encoding = some "gzip") ∧
        client.manifest.rawBytes = some (tally
          (fun entry => (originalBody library client.disk entry).length)
          client.manifest.sources.entries : ℤ) ∧
        client.manifest.decodedBytes = client.manifest.rawBytes ∧
        client.manifest.storedBytes = some (tally (fun entry => fileSize client.disk entry.1)
          client.manifest.sources.entries : ℤ) := by
  have horiginals := h.originals
  have hlater : Migrating library disk manifest.sources.entries manifest.requests
      (originalBody library disk) (afterCrashes library limits disk crashes) := by
    refine survives_interruptions (fun store hstore => ?_) ⟨[], manifest, h.stage⟩ crashes
    obtain ⟨done, next, hstage⟩ := hstore
    obtain ⟨client, all, hresume, hsurvives, -⟩ :=
      resume_stage hlaw horiginals hstage h.decoded h.archived
    rw [hresume]
    exact hsurvives
  obtain ⟨done, next, hstage⟩ := hlater
  obtain ⟨client, all, hresume, -, hdisk, hfinal, hall, hraw, hdecoded, hstored⟩ :=
    resume_stage hlaw horiginals hstage h.decoded h.archived
  refine ⟨⟨next, hstage.preserved hlaw horiginals⟩, client, hresume, hdisk,
    hfinal.preserved hlaw horiginals, hfinal.compressed horiginals hall, ?_,
    hdecoded.trans hraw.symm, ?_⟩
  · rw [hraw, hfinal.tally_originalBody hlaw horiginals]
  · rw [hstored, hfinal.tally_fileSize]

/-! ### A sample archive -/

/-- The bytes of an empty object. -/
def emptyObject : List UInt8 := [123, 125]

/-- The bytes of its compressed file. -/
def emptyObjectGzip : List UInt8 :=
  [31, 139, 8, 0, 0, 0, 0, 0, 0, 3, 171, 174, 5, 0, 67, 191, 166, 163, 2, 0, 0, 0]

/-- A library that knows the compressed file of an empty object and the hashes of both. Another
file gets a header of one byte. -/
def sampleLibrary : ArchiveLibrary where
  sha256 bytes :=
    if bytes = emptyObject then
      "44136fa355b3678a1146ad16f7e8649e94fb4fc21fe77e8310c060f61caaff8a"
    else if bytes = emptyObjectGzip then
      "73a1b438b0221511fb3dde18e019f5ab045811b2248d25d424e40980c683a9dc"
    else ""
  compress body := if body = emptyObject then emptyObjectGzip else 0 :: body
  readGzip stored count :=
    if stored = emptyObjectGzip then some (emptyObject.take count)
    else
      match stored with
      | 0 :: body => some (body.take count)
      | _ => none

theorem sampleLibrary_lawful : sampleLibrary.Lawful where
  readGzip_compress body count := by
    by_cases hempty : body = emptyObject
    · simp [sampleLibrary, hempty]
    · simp [sampleLibrary, hempty, emptyObjectGzip]
  compress_length body hlength := by
    by_cases hempty : body = emptyObject
    · rw [hempty]
      decide
    · simp only [sampleLibrary, if_neg hempty, List.length_cons]
      omega

def sampleSource : ArchiveSource where
  url := some "https://external-api.kalshi.com/trade-api/v2/markets"
  sha256 := some "44136fa355b3678a1146ad16f7e8649e94fb4fc21fe77e8310c060f61caaff8a"
  httpStatus := some 200
  responseBytes := some 2

def sampleManifest : Manifest where
  schemaVersion := 1
  requestPolicy := { maximumArchiveBytes := none, maximumDecodedBytes := none }
  requests := [{
    url := sampleSource.url
    sha256 := sampleSource.sha256
    httpStatus := sampleSource.httpStatus
    file := some "markets-attempt-01.json" }]
  sources := ⟨[("markets-attempt-01.json", sampleSource)], List.nodup_singleton _⟩

def sampleDisk : Disk := fun name =>
  if name = manifestName then some (.document sampleManifest)
  else if name = "markets-attempt-01.json" then some (.file emptyObject)
  else none

def sampleLimits : CatalogLimits where
  maxArchiveBytes := 100
  maxDecodedBytes := 100
  customWriter := false

theorem sampleDisk_read : readArchivedResponse sampleLibrary sampleDisk "markets-attempt-01.json"
    sampleSource = .ok emptyObject := by
  decide +kernel

theorem sampleDisk_valid : ValidArchive sampleLibrary sampleLimits sampleDisk sampleManifest where
  stored := rfl
  version := Or.inl rfl
  readable := List.forall_mem_singleton.mpr ⟨emptyObject, sampleDisk_read⟩
  verified := List.forall_mem_singleton.mpr (by decide +kernel)
  free := by decide +kernel
  room := List.forall_mem_singleton.mpr fun _ => Or.inl rfl
  decoded := by
    decide +kernel
  archived := by
    decide +kernel

/-- The migration of the sample archive survives two crashes. -/
theorem migration_crash_safe_sample :
    ∃ client, resume sampleLibrary sampleLimits
        (afterCrashes sampleLibrary sampleLimits sampleDisk [1, 3]) = .ok client ∧
      ∀ entry ∈ client.manifest.sources.entries, entry.2.encoding = some "gzip" := by
  obtain ⟨-, client, hresume, -, -, hgzip, -⟩ :=
    migration_crash_safe sampleLibrary_lawful sampleDisk_valid [1, 3]
  exact ⟨client, hresume, hgzip⟩

end EventMarket.Scripts
