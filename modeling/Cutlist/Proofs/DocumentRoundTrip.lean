import Cutlist.Project.Document
import Cutlist.Proofs.Results
import Cutlist.Proofs.TimestampText

/-!
# A project is taken back from its document

The document of a project has a member for nearly every part of it, under the
name and with the kind of value that the reader asks for. What the document
leaves out, media files and offsets that are null, the reader takes for null.
The one part that may not come back is the time of creation, and it does for
every project that was read.
-/

namespace Cutlist

open Document

namespace Json

variable {name other : String} {v : Json} {ms ms' : List (String × Json)}

theorem find?_append (name : String) (ms ms' : List (String × Json)) :
    find? name (ms ++ ms') = (find? name ms).or (find? name ms') := by
  rw [find?, find?, find?, List.find?_append]
  cases ms.find? (·.1 == name) <;> rfl

theorem find?_unlessNull (name : String) (v : Json) :
    (find? name (unlessNull name v)).getD .null = v := by
  cases v <;> simp [unlessNull, find?]

theorem find?_unlessNull_of_ne (h : other ≠ name) :
    find? name (unlessNull other v) = none := by
  cases v <;> simp [unlessNull, find?, h]

end Json

namespace Document

theorem mapM_map {α : Type} {read : Json → Except Fault α} {write : α → Json}
    (h : ∀ a, read (write a) = .ok a) (as : List α) :
    (as.map write).mapM read = .ok as := by
  induction as with
  | nil => rfl
  | cons a as ih =>
      rw [List.map_cons, List.mapM_cons, h, ih]
      rfl

theorem readSegment_ofSegment (s : Segment) :
    readSegment (ofSegment s) = .ok s := rfl

theorem readZoom_ofZoom (z : ZoomEffect) : readZoom (ofZoom z) = .ok z := rfl

theorem readSpeed_ofSpeed (s : SpeedEffect) : readSpeed (ofSpeed s) = .ok s :=
  rfl

theorem readAnnotation_ofAnnotation (a : Annotation) :
    readAnnotation ( ofAnnotation a) = .ok a := rfl

theorem readOverlay_ofOverlay (o : CameraOverlay) :
    readOverlay (ofOverlay o) = .ok o := by
  obtain ⟨position, margin, scale, x, y⟩ := o
  cases position <;> rfl

theorem readMix_ofMix (m : AudioMix) : readMix (ofMix m) = .ok m := rfl

/-- The members of a document's edits. -/
def editMembers (e : Edits) : List (String × Json) :=
  [("segments", .list (e.segments.map ofSegment)),
    ("zoom", .list (e.zoom.map ofZoom)), ("speed", .list (e.speed.map ofSpeed)),
    ("annotations", .list (e.annotations.map ofAnnotation)),
    ("cameraOverlay", ofOverlay e.overlay), ("audioMix", ofMix e.mix)]

theorem readEdits_editMembers (e : Edits) :
    readEdits readSegment "segments" (editMembers e) = .ok e.segments ∧
    readEdits readZoom "zoom" (editMembers e) = .ok e.zoom ∧
    readEdits readSpeed "speed" (editMembers e) = .ok e.speed ∧
    readEdits readAnnotation "annotations" (editMembers e) =
      .ok e.annotations :=
  ⟨mapM_map readSegment_ofSegment _, mapM_map readZoom_ofZoom _,
    mapM_map readSpeed_ofSpeed _, mapM_map readAnnotation_ofAnnotation _⟩

/-- The members that every document has. -/
def fixedMembers (p : Project) : List (String × Json) :=
  [("id", p.id), ("name", p.name), ("createdAt", .text p.createdAt.toText),
    ("screenVideoPath", p.screen), ("duration", .real p.duration),
    ("resolution",
      .object [("width", .int p.resolution.width),
        ("height", .int p.resolution.height)]),
    ("edits", ofEdits p.edits)]

/-- The members that a document has unless they are null. -/
def looseMembers (p : Project) : List (String × Json) :=
  unlessNull "cameraVideoPath" p.camera
    ++ unlessNull "microphoneAudioPath" p.microphone
    ++ unlessNull "cameraOffsetMs" p.cameraOffset
    ++ unlessNull "microphoneOffsetMs" p.microphoneOffset

theorem toJson_eq (p : Project) :
    p.toJson = .object (fixedMembers p ++ looseMembers p) := by
  simp [Project.toJson, fixedMembers, looseMembers]

theorem find?_fixed {p : Project} {name : String} {v : Json}
    (h : Json.find? name (fixedMembers p) = some v) :
    Json.find? name (fixedMembers p ++ looseMembers p) = some v := by
  rw [Json.find?_append, h, Option.some_or]

theorem optional_loose (p : Project) :
    Document.optional "cameraVideoPath" .null
      (fixedMembers p ++ looseMembers p) = p.camera ∧
    Document.optional "microphoneAudioPath" .null
      (fixedMembers p ++ looseMembers p) = p.microphone ∧
    Document.optional "cameraOffsetMs" .null
      (fixedMembers p ++ looseMembers p) = p.cameraOffset ∧
    Document.optional "microphoneOffsetMs" .null
      (fixedMembers p ++ looseMembers p) = p.microphoneOffset := by
  have hnone : ∀ {name}, Json.find? name (fixedMembers p) = none →
      Json.find? name (fixedMembers p ++ looseMembers p) =
        Json.find? name (looseMembers p) := by
    intro name h
    rw [Json.find?_append, h, Option.none_or]
  refine ⟨?_, ?_, ?_, ?_⟩ <;>
  · rw [Document.optional, hnone rfl]
    simp [looseMembers, Json.find?_append, Json.find?_unlessNull_of_ne,
      Json.find?_unlessNull]

theorem readCreatedAt_toText {t : Timestamp} (h : t.ReadsBack)
    (now : Timestamp) : readCreatedAt now (.text t.toText) = .ok t := by
  have hnonempty : (Json.text t.toText).truthy = true := by
    have hmem : 'T' ∈ t.toText.toList := by
      rw [Timestamp.toText, String.toList_ofList, Timestamp.chars_eq]
      simp
    rw [Json.truthy, Bool.not_eq_true', Bool.eq_false_iff]
    intro hempty
    rw [String.isEmpty_iff] at hempty
    rw [hempty] at hmem
    simp at hmem
  rw [readCreatedAt, if_pos hnonempty]
  change (Timestamp.read t.toText).mapError _ = _
  rw [Timestamp.read_toText h]
  rfl

end Document

namespace Project

/-- A project is taken back from its document if its time of creation is. -/
theorem ofJson_toJson {p : Project} (h : p.createdAt.ReadsBack)
    (now : Timestamp) : Project.ofJson now p.toJson = .ok p := by
  have hneed : ∀ name {v}, Json.find? name (fixedMembers p) = some v →
      need name p.toJson = .ok v := by
    intro name v hfind
    rw [toJson_eq, need, find?_fixed hfind]
  have hmembers : members p.toJson =
      .ok (fixedMembers p ++ looseMembers p) := by
    rw [toJson_eq]
    rfl
  have hedits : members (given (Json.find? "edits"
      (fixedMembers p ++ looseMembers p))) = .ok (editMembers p.edits) := by
    rw [find?_fixed (v := ofEdits p.edits) rfl]
    rfl
  have hname : Document.optional "name" (.text "")
      (fixedMembers p ++ looseMembers p) = p.name := by
    rw [Document.optional, find?_fixed (v := p.name) rfl]
    rfl
  have hcreated : readCreatedAt now (Document.optional "createdAt" .null
      (fixedMembers p ++ looseMembers p)) = .ok p.createdAt := by
    rw [Document.optional, find?_fixed (v := .text p.createdAt.toText) rfl]
    exact readCreatedAt_toText h now
  have hoverlay : readOverlay (given (Json.find? "cameraOverlay"
      (editMembers p.edits))) = .ok p.edits.overlay :=
    readOverlay_ofOverlay p.edits.overlay
  have hmix : readMix (given (Json.find? "audioMix" (editMembers p.edits))) =
      .ok p.edits.mix := readMix_ofMix p.edits.mix
  obtain ⟨hsegments, hzoom, hspeed, hannotations⟩ :=
    readEdits_editMembers p.edits
  obtain ⟨hcamera, hmicrophone, hcameraOffset, hmicrophoneOffset⟩ :=
    optional_loose p
  simp only [Project.ofJson, hmembers, hedits, hneed "id" rfl,
    hneed "screenVideoPath" rfl, needReal,
    hneed "duration" rfl, hneed "resolution" rfl, hcreated,
    hsegments, hzoom, hspeed, hannotations, hoverlay, hmix, hname, hcamera,
    hmicrophone, hcameraOffset, hmicrophoneOffset, bind, Except.bind]
  rfl

/-! ## Projects that were read -/

/-- What a project is taken from: the members of its document and those of the
edits. -/
structure TakenFrom (p : Project) (now : Timestamp)
    (ms es : List (String × Json)) : Prop where
  id : need "id" (.object ms) = .ok p.id
  name : p.name = Document.optional "name" (.text "") ms
  screen : need "screenVideoPath" (.object ms) = .ok p.screen
  camera : p.camera = Document.optional "cameraVideoPath" .null ms
  microphone : p.microphone = Document.optional "microphoneAudioPath" .null ms
  cameraOffset : p.cameraOffset = Document.optional "cameraOffsetMs" .null ms
  microphoneOffset :
    p.microphoneOffset = Document.optional "microphoneOffsetMs" .null ms
  width : (need "resolution" (.object ms) >>= need "width" >>=
    Document.whole) = .ok p.resolution.width
  height : (need "resolution" (.object ms) >>= need "height" >>=
    Document.whole) = .ok p.resolution.height
  createdAt : readCreatedAt now (Document.optional "createdAt" .null ms) =
    .ok p.createdAt
  members : Document.members (given (Json.find? "edits" ms)) = .ok es
  segments : readEdits readSegment "segments" es = .ok p.edits.segments
  zoom : readEdits readZoom "zoom" es = .ok p.edits.zoom
  speed : readEdits readSpeed "speed" es = .ok p.edits.speed
  annotations :
    readEdits readAnnotation "annotations" es = .ok p.edits.annotations
  overlay : readOverlay (given (Json.find? "cameraOverlay" es)) =
    .ok p.edits.overlay

theorem takenFrom_of_ofJson {now : Timestamp} {doc : Json} {p : Project}
    (h : Project.ofJson now doc = .ok p) :
    ∃ ms edits, doc = .object ms ∧ p.TakenFrom now ms edits := by
  rw [Project.ofJson] at h
  obtain ⟨ms, hms, h⟩ := bind_eq_ok h
  obtain ⟨edits, hedits, h⟩ := bind_eq_ok h
  obtain ⟨id, hid, h⟩ := bind_eq_ok h
  obtain ⟨screen, hscreen, h⟩ := bind_eq_ok h
  obtain ⟨duration, _, h⟩ := bind_eq_ok h
  obtain ⟨width, hwidth, h⟩ := bind_eq_ok h
  obtain ⟨height, hheight, h⟩ := bind_eq_ok h
  obtain ⟨createdAt, hcreatedAt, h⟩ := bind_eq_ok h
  obtain ⟨segments, hsegments, h⟩ := bind_eq_ok h
  obtain ⟨zooms, hzooms, h⟩ := bind_eq_ok h
  obtain ⟨speeds, hspeeds, h⟩ := bind_eq_ok h
  obtain ⟨annotations, hannotations, h⟩ := bind_eq_ok h
  obtain ⟨overlay, hoverlay, h⟩ := bind_eq_ok h
  obtain ⟨mix, hmix, h⟩ := bind_eq_ok h
  cases h
  have hdoc : doc = .object ms := by
    cases doc <;> cases hms
    rfl
  subst hdoc
  exact ⟨ms, edits, rfl,
    { id := hid
      name := rfl
      screen := hscreen
      camera := rfl
      microphone := rfl
      cameraOffset := rfl
      microphoneOffset := rfl
      width := hwidth
      height := hheight
      createdAt := hcreatedAt
      members := hedits
      segments := hsegments
      zoom := hzooms
      speed := hspeeds
      annotations := hannotations
      overlay := hoverlay }⟩

/-- A time of creation that was read, or that is now, reads back. -/
theorem readsBack_of_readCreatedAt {now t : Timestamp} {v : Json}
    (hnow : now.offset = 0) (h : readCreatedAt now v = .ok t) :
    t.ReadsBack := by
  rw [readCreatedAt.eq_def] at h
  split at h
  · cases v with
    | text s =>
        exact Timestamp.readsBack_of_read (mapError_eq_ok.1 h)
    | null | bool _ | int _ | real _ | list _ | object _ => cases h
  · cases h
    exact .inl hnow

/-- What remains of a document when a project is taken from it. -/
def normalized (now : Timestamp) (doc : Json) : Except Fault Json :=
  (Project.ofJson now doc).map Project.toJson

/-- A project that was taken from a document is taken back from its own, at any
time; so a document is in its normal form once it has been normalized. -/
theorem ofJson_toJson_of_ofJson {now : Timestamp} {doc : Json} {p : Project}
    (hnow : now.offset = 0) (h : Project.ofJson now doc = .ok p)
    (later : Timestamp) :
    Project.ofJson later p.toJson = .ok p ∧
      normalized now doc = .ok p.toJson ∧
      normalized later p.toJson = .ok p.toJson := by
  obtain ⟨ms, es, _, htaken⟩ := takenFrom_of_ofJson h
  have hback := ofJson_toJson
    (readsBack_of_readCreatedAt hnow htaken.createdAt) later
  refine ⟨hback, ?_, ?_⟩
  · rw [normalized, h]
    rfl
  · rw [normalized, hback]
    rfl

/-- A document with numbers of other kinds, a time of creation with a fraction
and a distance from universal time, and a speed. -/
def sparse : Json :=
  .object [("id", .int 7), ("screenVideoPath", .text "screen.mp4"),
    ("duration", .text " 1e3 "),
    ("resolution", .object [("width", .real 2), ("height", .bool true)]),
    ("createdAt", .text "20240131T1805,25-03:30:01"), ("edits", .object
      [("speed", .list [.object [("id", .null), ("startTime", .int 1),
        ("endTime", .text "nan"), ("speed", .real 2)]])])]

/-- Once it has been read, its project is taken back. -/
theorem ofJson_toJson_sparse :
    ∃ p, Project.ofJson default sparse = .ok p ∧
      Project.ofJson default p.toJson = .ok p := by
  cases h : Project.ofJson default sparse with
  | ok p => exact ⟨p, rfl, (ofJson_toJson_of_ofJson (by decide) h default).1⟩
  | error fault =>
      have hok : (Project.ofJson default sparse).toOption.isSome = true := by
        decide +kernel
      rw [h] at hok
      cases hok

end Project

end Cutlist
