import EventMarket.Foundations.Durable
import EventMarket.Foundations.Tally
import EventMarket.Scripts.CatalogArchive

/-!
# Interrupted migrations

A migration rewrites an archive around its manifest. At every point between two of its durable
operations the manifest lists, for every original response, either the plain file or the compressed
one, and that file is there. A later attempt to resume finds such a stage and goes on from it.

## Main definitions

* `ArchiveLibrary.Lawful`: what is assumed of the compression.
* `Archived`, `staged`: the original responses, and the sources when some of them are migrated.
* `Stage`: the directory at a point of the migration.

## Main results

* `readArchivedResponse_eq_ok`, `readArchivedResponse_zipped`: what can be read.
* `Files.document`, `Files.write`, `Files.unlink`: the operations of a migration keep the files.
* `Listed.commit`, `follow_restaged`: the lists of a manifest after one more migration.
-/

namespace EventMarket.Scripts

open Foundations Gateway

/-- What is assumed of the compression: reading undoes it, and it hardly adds to a response. -/
structure ArchiveLibrary.Lawful (library : ArchiveLibrary) : Prop where
  readGzip_compress : ∀ body count, library.readGzip (library.compress body) count =
    some (body.take count)
  compress_length : ∀ body, body.length ≤ maxResponseBytes →
    (library.compress body).length ≤ maxResponseBytes + 65536

variable {library : ArchiveLibrary} {limits : CatalogLimits} {disk : Disk}

/-! ### Durable operations -/

section Operations

variable {name other old new : String}

theorem write_self (disk : Disk) (name : String) (entry : DiskEntry) :
    (FileOperation.write name entry).apply disk name = some entry := Function.update_self ..

theorem write_of_ne (h : other ≠ name) (entry : DiskEntry) :
    (FileOperation.write name entry).apply disk other = disk other := Function.update_of_ne h ..

theorem unlink_of_ne (h : other ≠ name) :
    (FileOperation.unlink name).apply disk other = disk other := Function.update_of_ne h ..

theorem rename_new (h : new ≠ old) :
    (FileOperation.rename old new).apply disk new = disk old :=
  (Function.update_of_ne h ..).trans (Function.update_self ..)

theorem rename_of_ne (hold : other ≠ old) (hnew : other ≠ new) :
    (FileOperation.rename old new).apply disk other = disk other :=
  (Function.update_of_ne hold ..).trans (Function.update_of_ne hnew ..)

end Operations

/-! ### Names -/

theorem manifestName_ne : manifestName ≠ temporaryName := by decide

theorem isGzipName_append (name : String) : isGzipName (name ++ ".gz") = true := by
  rw [isGzipName, String.toList_append, List.isSuffixOf_iff_suffix]
  exact List.suffix_append _ _

theorem plainName_append {name : String} (h : isGzipName name = false) :
    plainName (name ++ ".gz") = plainName name := by
  have hlength : (name ++ ".gz").toList.length - 3 = name.toList.length := by
    rw [String.toList_append, List.length_append]
    exact Nat.add_sub_cancel _ 3
  rw [plainName, plainName, isGzipName_append, h, if_pos rfl, if_neg Bool.false_ne_true, hlength,
    String.toList_append, List.take_left]

/-- The compressed file of a plain one has a good name, too. -/
theorem archivedName_append {name : String} (h : isGzipName name = false) :
    archivedName (name ++ ".gz") = archivedName name := by
  rw [archivedName, archivedName, plainName_append h]

theorem append_gz_inj {name other : String} (h : name ++ ".gz" = other ++ ".gz") :
    name = other := by
  have hlist := congrArg String.toList h
  rw [String.toList_append, String.toList_append] at hlist
  exact String.toList_injective (List.append_cancel_right hlist)

theorem ne_append_gz {name other : String} (h : isGzipName name = false) :
    name ≠ other ++ ".gz" := by
  rintro rfl
  rw [isGzipName_append] at h
  exact nomatch h

/-! ### What can be read -/

/-- What a file of an archive is when it can be read. -/
structure Readable (library : ArchiveLibrary) (disk : Disk) (name : String)
    (source : ArchiveSource) (body stored : List UInt8) : Prop where
  name_eq : archivedName name = true
  stored_eq : disk name = some (.file stored)
  size_eq : source.responseBytes = some body.length
  size_le : body.length ≤ maxResponseBytes
  stored_le : stored.length ≤ maxResponseBytes + 65536
  sha256_eq : source.sha256 = some (library.sha256 body)
  decoded : decodeStored library name source body.length stored = .ok body

/-- **A response that can be read** has its recorded hash and length. -/
theorem readArchivedResponse_eq_ok {name : String} {source : ArchiveSource} {body : List UInt8} :
    readArchivedResponse library disk name source = .ok body ↔
      ∃ stored, Readable library disk name source body stored := by
  constructor
  · intro h
    unfold readArchivedResponse at h
    split at h
    · exact nomatch h
    next hname =>
    split at h
    · exact nomatch h
    · exact nomatch h
    · exact nomatch h
    next stored hstored =>
    split at h
    · exact nomatch h
    next size hsize =>
    split at h
    · exact nomatch h
    next hsizeLe =>
    split at h
    · exact nomatch h
    next hstoredLe =>
    obtain ⟨decoded, hdecoded, h⟩ := bind_eq_ok h
    split at h
    · exact nomatch h
    next hmatch =>
    obtain rfl := Except.ok.inj h
    rw [not_or, not_not, not_not] at hmatch
    obtain ⟨rfl, hsha⟩ := hmatch
    exact ⟨stored, by simpa using hname, hstored, hsize, not_lt.mp hsizeLe, not_lt.mp hstoredLe,
      hsha, hdecoded⟩
  · rintro ⟨stored, h⟩
    unfold readArchivedResponse
    rw [h.name_eq, if_neg (by simp), h.stored_eq]
    simp only [h.size_eq]
    rw [if_neg (not_lt.mpr h.size_le), if_neg (not_lt.mpr h.stored_le), h.decoded]
    simp [bind, Except.bind, h.sha256_eq]

/-- A response depends on its own file only. -/
theorem readArchivedResponse_congr {other : Disk} {name : String} (h : other name = disk name)
    (source : ArchiveSource) :
    readArchivedResponse library other name source =
      readArchivedResponse library disk name source := by
  unfold readArchivedResponse
  rw [h]

/-- A plain response is what the file holds. -/
theorem Readable.plain {name : String} {source : ArchiveSource} {body stored : List UInt8}
    (h : Readable library disk name source body stored) (hplain : source.isPlain = true) :
    stored = body ∧ isGzipName name = false := by
  have hdecoded := h.decoded
  unfold decodeStored at hdecoded
  rw [if_neg] at hdecoded
  · split at hdecoded
    · next hname => exact ⟨Except.ok.inj hdecoded, hname.2⟩
    · exact nomatch hdecoded
  · intro hgzip
    rw [ArchiveSource.isPlain, hgzip] at hplain
    exact absurd hplain (by decide)

/-- The file of a compressed response has the recorded size. -/
theorem Readable.stored_size {name : String} {source : ArchiveSource} {body stored : List UInt8}
    (h : Readable library disk name source body stored) (hplain : source.isPlain = false) :
    source.storedBytes = some stored.length ∧ source.encoding = some "gzip" := by
  have hdecoded := h.decoded
  unfold decodeStored at hdecoded
  split at hdecoded
  · next hgzip =>
    split at hdecoded
    · exact nomatch hdecoded
    · next hmatch =>
      rw [not_or, not_or, not_not] at hmatch
      exact ⟨hmatch.2.1, hgzip⟩
  · rw [if_neg fun hname => Bool.false_ne_true (hplain.symm.trans hname.1)] at hdecoded
    exact nomatch hdecoded

/-- **A compressed response can be read** when the plain one could. -/
theorem readArchivedResponse_zipped (hlaw : library.Lawful) {name : String}
    {source : ArchiveSource} {body stored : List UInt8}
    (h : Readable library disk name source body stored) (hplain : source.isPlain = true)
    {other : Disk} (hfile : other (name ++ ".gz") = some (.file (library.compress body))) :
    Readable library other (name ++ ".gz") (source.zipped library (library.compress body)) body
      (library.compress body) := by
  obtain ⟨-, hname⟩ := h.plain hplain
  refine ⟨(archivedName_append hname).trans h.name_eq, hfile, h.size_eq, h.size_le,
    hlaw.compress_length body h.size_le, h.sha256_eq, ?_⟩
  have hgzip : (source.zipped library (library.compress body)).encoding = some "gzip" := rfl
  unfold decodeStored
  rw [if_pos hgzip, if_neg (by simp [ArchiveSource.zipped, isGzipName_append]),
    hlaw.readGzip_compress, List.take_of_length_le (Nat.le_succ _)]

/-! ### The originals and their stages -/

/-- The original responses of an archive and the requests that refer to them. The first directory
holds each of them, and no compressed file has the name that another one will get. -/
structure Originals (library : ArchiveLibrary) (first : Disk)
    (originals : List (String × ArchiveSource)) (requests : List ArchivedRequest)
    (body : String × ArchiveSource → List UInt8) : Prop where
  nodup : (originals.map Prod.fst).Nodup
  readable : ∀ entry ∈ originals,
    ∃ stored, Readable library first entry.1 entry.2 (body entry) stored
  reserved : ∀ entry ∈ originals, entry.1 ≠ manifestName
  single : ∀ entry ∈ originals, entry.2.isPlain = true →
    ∀ other ∈ originals, other.1 ≠ entry.1 ++ ".gz"
  referred : ∀ request ∈ requests, ∀ file, request.file = some file → file ≠ "" →
    ∃ source, (file, source) ∈ originals ∧ source.url = request.url ∧
      source.sha256 = request.sha256 ∧ source.httpStatus = request.httpStatus

/-- An original response when those with some names are migrated. -/
def staged (library : ArchiveLibrary) (body : String × ArchiveSource → List UInt8)
    (done : List String) (entry : String × ArchiveSource) : String × ArchiveSource :=
  if entry.1 ∈ done then
    (entry.1 ++ ".gz", entry.2.zipped library (library.compress (body entry)))
  else entry

/-- A request when the responses with some names are migrated. -/
def restaged (done : List String) (request : ArchivedRequest) : ArchivedRequest :=
  match request.file with
  | none => request
  | some file => if file ∈ done then { request with file := some (file ++ ".gz") } else request

/-- The files of a stage: the originals are there or compressed. -/
structure Files (library : ArchiveLibrary) (first : Disk)
    (originals : List (String × ArchiveSource)) (body : String × ArchiveSource → List UInt8)
    (done : List String) (disk : Disk) : Prop where
  kept : ∀ entry ∈ originals, entry.1 ∉ done → disk entry.1 = first entry.1
  room : ∀ entry ∈ originals, entry.2.isPlain = true → disk (entry.1 ++ ".gz") = none ∨
    disk (entry.1 ++ ".gz") = some (.file (library.compress (body entry)))
  zipped : ∀ entry ∈ originals, entry.1 ∈ done →
    disk (entry.1 ++ ".gz") = some (.file (library.compress (body entry)))
  plain : ∀ entry ∈ originals, entry.1 ∈ done → entry.2.isPlain = true
  named : ∀ name ∈ done, ∃ entry ∈ originals, entry.1 = name

/-- The lists of a manifest at a stage. -/
structure Listed (library : ArchiveLibrary) (originals : List (String × ArchiveSource))
    (requests : List ArchivedRequest) (body : String × ArchiveSource → List UInt8)
    (done : List String) (manifest : Manifest) : Prop where
  version : manifest.schemaVersion = 1 ∨ manifest.schemaVersion = 2
  sources : manifest.sources.entries.Perm (originals.map (staged library body done))
  requests_eq : manifest.requests = requests.map (restaged done)

/-- **A stage of a migration.** -/
structure Stage (library : ArchiveLibrary) (first : Disk)
    (originals : List (String × ArchiveSource)) (requests : List ArchivedRequest)
    (body : String × ArchiveSource → List UInt8) (done : List String) (manifest : Manifest)
    (disk : Disk) : Prop where
  stored : disk manifestName = some (.document manifest)
  listed : Listed library originals requests body done manifest
  files : Files library first originals body done disk

section Stages

variable {first : Disk} {originals : List (String × ArchiveSource)}
  {requests : List ArchivedRequest} {body : String × ArchiveSource → List UInt8}
  {done : List String} {entry : String × ArchiveSource} {manifest : Manifest}

theorem Originals.ne_temporary (h : Originals library first originals requests body)
    (hentry : entry ∈ originals) : entry.1 ≠ temporaryName := by
  obtain ⟨stored, hreadable⟩ := h.readable entry hentry
  intro heq
  have hname := hreadable.name_eq
  rw [heq] at hname
  exact absurd hname (by decide)

theorem Originals.not_gzip (h : Originals library first originals requests body)
    (hentry : entry ∈ originals) (hplain : entry.2.isPlain = true) :
    isGzipName entry.1 = false := by
  obtain ⟨stored, hreadable⟩ := h.readable entry hentry
  exact (hreadable.plain hplain).2

/-- The names that a stage reads are none of the manifest's. -/
theorem gz_ne (name : String) : name ++ ".gz" ≠ manifestName ∧ name ++ ".gz" ≠ temporaryName :=
  ⟨Ne.symm (ne_append_gz (by decide)), Ne.symm (ne_append_gz (by decide))⟩

theorem Originals.eq_of_name (h : Originals library first originals requests body)
    {other : String × ArchiveSource} (hentry : entry ∈ originals) (hother : other ∈ originals)
    (hname : entry.1 = other.1) : entry = other :=
  List.inj_on_of_nodup_map h.nodup hentry hother hname

/-- The other responses have other names. -/
theorem Originals.middle_ne {before after : List (String × ArchiveSource)}
    (h : Originals library first (before ++ entry :: after) requests body) :
    ∀ other ∈ before ++ after, other.1 ≠ entry.1 := by
  have hnodup := (List.perm_middle.map Prod.fst).nodup_iff.mp h.nodup
  rw [List.map_cons, List.nodup_cons] at hnodup
  intro other hother heq
  exact hnodup.1 (heq ▸ List.mem_map_of_mem hother)

/-- Files that a stage does not read may change, and compressed files may come. -/
theorem Files.frame (h : Files library first originals body done disk) {other : Disk}
    (hkept : ∀ entry ∈ originals, entry.1 ∉ done → other entry.1 = disk entry.1)
    (hroom : ∀ entry ∈ originals, entry.2.isPlain = true →
      other (entry.1 ++ ".gz") = disk (entry.1 ++ ".gz") ∨
        other (entry.1 ++ ".gz") = some (.file (library.compress (body entry)))) :
    Files library first originals body done other where
  kept entry hentry hnew := (hkept entry hentry hnew).trans (h.kept entry hentry hnew)
  room entry hentry hplain := by
    rcases hroom entry hentry hplain with hsame | hfile
    · rw [hsame]
      exact h.room entry hentry hplain
    · exact Or.inr hfile
  zipped entry hentry hdone := by
    rcases hroom entry hentry (h.plain entry hentry hdone) with hsame | hfile
    · rw [hsame]
      exact h.zipped entry hentry hdone
    · exact hfile
  plain := h.plain
  named := h.named

/-- The files of the manifest are read by no stage. -/
theorem Files.document (h : Files library first originals body done disk)
    (horiginals : Originals library first originals requests body) {other : Disk}
    (hother : ∀ name, name ≠ manifestName → name ≠ temporaryName → other name = disk name) :
    Files library first originals body done other :=
  h.frame (fun entry hentry _ => hother entry.1 (horiginals.reserved entry hentry)
      (horiginals.ne_temporary hentry))
    fun entry _ _ => Or.inl (hother _ (gz_ne entry.1).1 (gz_ne entry.1).2)

/-- One more response counts as migrated when its compressed file is there. -/
theorem Files.next (h : Files library first originals body done disk)
    (horiginals : Originals library first originals requests body) (hentry : entry ∈ originals)
    (hplain : entry.2.isPlain = true)
    (hfile : disk (entry.1 ++ ".gz") = some (.file (library.compress (body entry)))) :
    Files library first originals body (entry.1 :: done) disk where
  kept other hother hnew := h.kept other hother fun hdone => hnew (List.mem_cons_of_mem _ hdone)
  room := h.room
  zipped other hother hdone := by
    rcases List.mem_cons.mp hdone with hsame | hdone
    · rw [horiginals.eq_of_name hother hentry hsame]
      exact hfile
    · exact h.zipped other hother hdone
  plain other hother hdone := by
    rcases List.mem_cons.mp hdone with hsame | hdone
    · rw [horiginals.eq_of_name hother hentry hsame]
      exact hplain
    · exact h.plain other hother hdone
  named name hname := by
    rcases List.mem_cons.mp hname with rfl | hdone
    · exact ⟨entry, hentry, rfl⟩
    · exact h.named name hdone

/-- A response that is migrated does not need its plain file. -/
theorem Files.unlink (h : Files library first originals body done disk)
    (horiginals : Originals library first originals requests body) (hentry : entry ∈ originals)
    (hdone : entry.1 ∈ done) :
    Files library first originals body done ((FileOperation.unlink entry.1).apply disk) := by
  have hname := horiginals.not_gzip hentry (h.plain entry hentry hdone)
  refine h.frame (fun other hother hnew => ?_) fun other _ _ => Or.inl ?_
  · have hne : other.1 ≠ entry.1 := fun heq => hnew (heq ▸ hdone)
    exact unlink_of_ne hne
  · exact unlink_of_ne (ne_append_gz hname).symm

/-- The compressed file of a plain response may be written. -/
theorem Files.write (h : Files library first originals body done disk)
    (horiginals : Originals library first originals requests body) (hentry : entry ∈ originals)
    (hplain : entry.2.isPlain = true) :
    Files library first originals body done
      ((FileOperation.write (entry.1 ++ ".gz")
        (.file (library.compress (body entry)))).apply disk) := by
  refine h.frame (fun other hother _ => ?_) fun other hother _ => ?_
  · exact write_of_ne (horiginals.single entry hentry hplain other hother) _
  · by_cases hsame : other.1 = entry.1
    · rw [horiginals.eq_of_name hother hentry hsame]
      exact Or.inr (write_self ..)
    · exact Or.inl (write_of_ne (fun heq => hsame (append_gz_inj heq)) _)

/-! ### The lists of a stage -/

theorem staged_of_not_mem (h : entry.1 ∉ done) : staged library body done entry = entry := if_neg h

theorem staged_of_mem (h : entry.1 ∈ done) : staged library body done entry =
    (entry.1 ++ ".gz", entry.2.zipped library (library.compress (body entry))) := if_pos h

/-- Only the response itself has its plain name. -/
theorem staged_name_ne (hname : isGzipName entry.1 = false) {other : String × ArchiveSource}
    (hother : other.1 ≠ entry.1) : (staged library body done other).1 ≠ entry.1 := by
  unfold staged
  split
  · exact (ne_append_gz hname).symm
  · exact hother

/-- **The sources after one more migration.** -/
theorem Listed.commit (h : Listed library originals requests body done manifest)
    (horiginals : Originals library first originals requests body) (hentry : entry ∈ originals)
    (hplain : entry.2.isPlain = true) (hnew : entry.1 ∉ done) :
    ((manifest.sources.set (entry.1 ++ ".gz")
        (entry.2.zipped library (library.compress (body entry)))).erase entry.1).entries.Perm
      (originals.map (staged library body (entry.1 :: done))) := by
  have hname := horiginals.not_gzip hentry hplain
  obtain ⟨before, after, rfl⟩ := List.append_of_mem hentry
  have hothers := horiginals.middle_ne
  have hsame : ∀ other ∈ before ++ after,
      staged library body (entry.1 :: done) other = staged library body done other := by
    intro other hother
    simp only [staged, List.mem_cons, hothers other hother, false_or]
  -- the compressed name is new
  have hfresh : ∀ source ∈ manifest.sources.entries, source.1 ≠ entry.1 ++ ".gz" := by
    intro source hsource heq
    obtain ⟨other, hother, rfl⟩ := List.mem_map.mp (h.sources.mem_iff.mp hsource)
    by_cases hmem : other.1 ∈ done
    · rw [staged_of_mem hmem] at heq
      exact hnew (append_gz_inj heq ▸ hmem)
    · rw [staged_of_not_mem hmem] at heq
      exact horiginals.single entry hentry hplain other hother heq
  rw [OrderedDict.entries_erase, OrderedDict.entries_set hfresh, List.filter_append]
  have hlast : [(entry.1 ++ ".gz", entry.2.zipped library (library.compress (body entry)))].filter
      (fun source => source.1 ≠ entry.1) =
        [staged library body (entry.1 :: done) entry] := by
    rw [staged_of_mem List.mem_cons_self]
    exact List.filter_cons_of_pos (decide_eq_true (ne_append_gz hname).symm)
  have hfirst : (manifest.sources.entries.filter fun source => source.1 ≠ entry.1).Perm
      ((before ++ after).map (staged library body (entry.1 :: done))) := by
    refine (h.sources.filter _).trans ?_
    have hmiddle : ((before ++ entry :: after).map (staged library body done)).Perm
        (entry :: (before ++ after).map (staged library body done)) := by
      have hperm := (@List.perm_middle _ entry before after).map (staged library body done)
      rwa [List.map_cons, staged_of_not_mem hnew] at hperm
    refine (hmiddle.filter _).trans ?_
    rw [List.filter_cons_of_neg (by simp), List.map_congr_left hsame, List.filter_eq_self.mpr]
    intro source hsource
    obtain ⟨other, hother, rfl⟩ := List.mem_map.mp hsource
    simpa using staged_name_ne hname (hothers other hother)
  rw [hlast]
  refine (hfirst.append_right _).trans ?_
  have hmiddle : ((before ++ after) ++ [entry]).Perm (before ++ entry :: after) :=
    List.perm_append_comm.trans (show (entry :: (before ++ after)).Perm _ from
      List.perm_middle.symm)
  have hperm := hmiddle.map (staged library body (entry.1 :: done))
  rwa [List.map_append, List.map_singleton] at hperm

/-- **The requests after one more migration.** -/
theorem follow_restaged (hname : isGzipName entry.1 = false) (request : ArchivedRequest) :
    (restaged done request).follow entry.1 (entry.1 ++ ".gz") =
      restaged (entry.1 :: done) request := by
  unfold restaged
  cases hfile : request.file with
  | none => simp [ArchivedRequest.follow, hfile]
  | some file =>
    dsimp only
    by_cases hmem : file ∈ done
    · rw [if_pos hmem, if_pos (List.mem_cons_of_mem _ hmem)]
      refine if_neg ?_
      rw [Option.some.injEq]
      exact (ne_append_gz hname).symm
    · rw [if_neg hmem]
      by_cases hsame : file = entry.1
      · simp [ArchivedRequest.follow, hfile, hsame]
      · simp [ArchivedRequest.follow, hfile, hsame, hmem]

end Stages

end EventMarket.Scripts
