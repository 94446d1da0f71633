import Cutlist.Library
import Cutlist.Proofs.DocumentRoundTrip
import Cutlist.Proofs.JsonText
import Cutlist.Proofs.NumberText

/-!
# What a project's file holds

A project that was taken from a document that was read can be stored: its own
document is written to a file in such a way that the project is taken back from
the bytes. The values that were passed on from the document are as sound as it
was; whole numbers that were converted, from a real number or a text, have no
more digits than are read; and the text holds no carriage return, so that the
ends of its lines are left alone.
-/

namespace Cutlist

open Decimal

/-! ## Whole numbers that were converted -/

namespace Decimal

theorem isDigit_of_ungroup {before : Char} {cs ds : List Char}
    (hcs : ∀ c ∈ cs, (c.isDigit || c == '_') = true)
    (h : ungroup before cs = some ds) : ∀ c ∈ ds, c.isDigit = true := by
  induction cs generalizing before ds with
  | nil =>
      cases h
      exact nofun
  | cons c cs ih =>
      have hrest : ∀ x ∈ cs, (x.isDigit || x == '_') = true :=
        fun x hx => hcs x (List.mem_cons_of_mem _ hx)
      by_cases hc : c = '_'
      · subst hc
        rw [ungroup] at h
        split at h
        · exact ih hrest h
        · cases h
      · have hdigit : c.isDigit = true := by
          have := hcs c List.mem_cons_self
          simpa [hc] using this
        rw [ungroup] at h
        · obtain ⟨ds', hds', rfl⟩ := Option.map_eq_some_iff.1 h
          exact List.forall_mem_cons.2 ⟨hdigit, ih hrest hds'⟩
        · exact hc

theorem wholeNumber_lt {s : String} {n : Int} (h : wholeNumber s = .ok n) :
    n.natAbs < 10 ^ maxDigits := by
  unfold wholeNumber at h
  generalize signed (plain s) = parts at h
  obtain ⟨negative, cs⟩ := parts
  dsimp only at h
  split at h
  · cases h
  next ds hds =>
  split at h
  · cases h
  next hlength =>
  split at h
  · cases h
  have hpart : ∀ c ∈ cs.takeWhile fun c => c.isDigit || c == '_',
      (c.isDigit || c == '_') = true := fun c hc =>
    List.mem_takeWhile_imp (p := fun c => c.isDigit || c == '_') hc
  have hdigits := isDigit_of_ungroup hpart hds
  have hlt : value ds < 10 ^ maxDigits :=
    Nat.lt_of_lt_of_le (value_lt hdigits)
      (Nat.pow_le_pow_right (by decide) (Nat.not_lt.1 hlength))
  cases h
  cases negative with
  | true => rwa [if_pos rfl, Int.natAbs_neg, Int.natAbs_natCast]
  | false => rwa [if_neg Bool.false_ne_true, Int.natAbs_natCast]

end Decimal

namespace Binary64

theorem truncate_lt {x : Binary64} {n : Int} (h : x.truncate = .ok n) :
    n.natAbs < 10 ^ maxDigits := by
  cases x with
  | finite s q hrep =>
      cases h
      obtain ⟨count, hcount, hlimit⟩ : ∃ n, n = maxDigits ∧
          limit ≤ Nat.pow 10 n := ⟨maxDigits, rfl, by decide +kernel⟩
      have habs : (signed s (q / unit)).natAbs = q / unit := by
        cases s with
        | true => exact (Int.natAbs_neg _).trans (Int.natAbs_natCast _)
        | false => exact Int.natAbs_natCast _
      rw [habs, ← hcount]
      exact Nat.lt_of_le_of_lt (Nat.div_le_self _ _)
        (Nat.lt_of_lt_of_le hrep.lt_limit hlimit)
  | infinite s => cases h
  | nan => cases h

end Binary64

namespace Document

variable {v u standard : Json} {ms : List (String × Json)} {vs : List Json}
variable {name : String}

/-! ## What is passed on -/

theorem whole_lt {n : Int} (hv : v.Sound) (h : whole v = .ok n) :
    n.natAbs < 10 ^ maxDigits := by
  have h := mapError_eq_ok.1 h
  cases hv with
  | int hn =>
      cases h
      exact hn
  | bool b =>
      cases h
      cases b <;> decide +kernel
  | real x =>
      cases hx : x.truncate with
      | ok m =>
          rw [Json.toWhole, hx] at h
          cases h
          exact Binary64.truncate_lt hx
      | error e =>
          rw [Json.toWhole, hx] at h
          cases e <;> cases h
  | text s =>
      cases hs : Decimal.wholeNumber s with
      | ok m =>
          rw [Json.toWhole, hs] at h
          cases h
          exact wholeNumber_lt hs
      | error e =>
          rw [Json.toWhole, hs] at h
          cases e <;> cases h
  | null => cases h
  | list _ => cases h
  | object _ _ => cases h

theorem sound_of_find? (hms : (Json.object ms).Sound)
    (h : Json.find? name ms = some v) : v.Sound := by
  cases hms with
  | object _ hms =>
      obtain ⟨m, hm, rfl⟩ := Option.map_eq_some_iff.1 h
      exact hms m (List.mem_of_find?_eq_some hm)

theorem sound_optional (name : String) (hms : (Json.object ms).Sound)
    (hstandard : standard.Sound) :
    (Document.optional name standard ms).Sound := by
  rw [Document.optional]
  cases h : Json.find? name ms with
  | none => exact hstandard
  | some v => exact sound_of_find? hms h

theorem sound_need (hv : v.Sound) (h : need name v = .ok u) : u.Sound := by
  cases v with
  | object ms =>
      rw [need] at h
      split at h
      · next hfind =>
          cases h
          exact sound_of_find? hv hfind
      · cases h
  | null | bool _ | int _ | real _ | text _ | list _ => cases h

theorem sound_members (hv : v.Sound) (h : members v = .ok ms) :
    (Json.object ms).Sound := by
  cases v with
  | object ms' =>
      cases h
      exact hv
  | null | bool _ | int _ | real _ | text _ | list _ => cases h

theorem sound_given (hms : (Json.object ms).Sound) :
    (given (Json.find? name ms)).Sound := by
  cases h : Json.find? name ms with
  | none => exact Json.sound_nil
  | some v =>
      rw [given]
      split
      · exact sound_of_find? hms h
      · exact Json.sound_nil

theorem sound_items (hv : v.Sound) (h : items v = .ok vs) :
    ∀ x ∈ vs, x.Sound := by
  cases hv with
  | list hvs =>
      cases h
      exact hvs
  | object _ _ =>
      cases h
      simp only [List.forall_mem_map]
      exact fun _ _ => .text _
  | text s =>
      cases h
      simp only [List.forall_mem_map]
      exact fun _ _ => .text _
  | null | bool _ | int _ | real _ => cases h

/-- What holds of everything that is read from a sound value holds of all that
is read from a list. -/
theorem forall_of_readEdits {α : Type} {read : Json → Except Fault α}
    {Q : α → Prop} (hread : ∀ {v a}, v.Sound → read v = .ok a → Q a)
    (hms : (Json.object ms).Sound) {as : List α}
    (h : readEdits read name ms = .ok as) : ∀ a ∈ as, Q a := by
  obtain ⟨vs, hvs, hmap⟩ := bind_eq_ok h
  have hsound := sound_items
    (sound_optional _ hms (.list (List.forall_mem_nil _))) hvs
  clear h hvs
  induction vs generalizing as with
  | nil =>
      cases hmap
      exact List.forall_mem_nil _
  | cons v vs ih =>
      rw [List.mapM_cons] at hmap
      obtain ⟨a, ha, hmap⟩ := bind_eq_ok hmap
      obtain ⟨as', has', hmap⟩ := bind_eq_ok hmap
      cases hmap
      obtain ⟨hv, hrest⟩ := List.forall_mem_cons.1 hsound
      exact List.forall_mem_cons.2 ⟨hread hv ha, ih has' hrest⟩

/-! ## Documents of projects -/

theorem sound_segment {s : Segment} (hv : v.Sound) (h : readSegment v = .ok s) :
    (ofSegment s).Sound := by
  obtain ⟨id, hid, h⟩ := bind_eq_ok h
  obtain ⟨start, _, h⟩ := bind_eq_ok h
  obtain ⟨stop, _, h⟩ := bind_eq_ok h
  obtain ⟨ms, _, h⟩ := bind_eq_ok h
  cases h
  exact .object (by simp) (by simp [sound_need hv hid])

theorem sound_zoom {z : ZoomEffect} (hv : v.Sound) (h : readZoom v = .ok z) :
    (ofZoom z).Sound := by
  obtain ⟨id, hid, h⟩ := bind_eq_ok h
  obtain ⟨start, _, h⟩ := bind_eq_ok h
  obtain ⟨stop, _, h⟩ := bind_eq_ok h
  obtain ⟨scale, _, h⟩ := bind_eq_ok h
  obtain ⟨ms, _, h⟩ := bind_eq_ok h
  obtain ⟨x, _, h⟩ := bind_eq_ok h
  obtain ⟨y, _, h⟩ := bind_eq_ok h
  cases h
  exact .object (by simp) (by simp [sound_need hv hid])

theorem sound_speed {s : SpeedEffect} (hv : v.Sound) (h : readSpeed v = .ok s) :
    (ofSpeed s).Sound := by
  obtain ⟨id, hid, h⟩ := bind_eq_ok h
  obtain ⟨start, _, h⟩ := bind_eq_ok h
  obtain ⟨stop, _, h⟩ := bind_eq_ok h
  obtain ⟨speed, _, h⟩ := bind_eq_ok h
  cases h
  exact .object (by simp) (by simp [sound_need hv hid])

theorem sound_annotation {a : Annotation} (hv : v.Sound)
    (h : readAnnotation v = .ok a) : Json.Sound ( ofAnnotation a) := by
  obtain ⟨id, hid, h⟩ := bind_eq_ok h
  obtain ⟨start, _, h⟩ := bind_eq_ok h
  obtain ⟨stop, _, h⟩ := bind_eq_ok h
  obtain ⟨x, _, h⟩ := bind_eq_ok h
  obtain ⟨y, _, h⟩ := bind_eq_ok h
  obtain ⟨width, _, h⟩ := bind_eq_ok h
  obtain ⟨height, _, h⟩ := bind_eq_ok h
  obtain ⟨ms, hms, h⟩ := bind_eq_ok h
  obtain ⟨opacity, _, h⟩ := bind_eq_ok h
  obtain ⟨thickness, hthickness, h⟩ := bind_eq_ok h
  cases h
  have hmembers := sound_members hv hms
  exact .object (by simp) (by
    simp [sound_need hv hid, Json.Sound.int (whole_lt
        (sound_optional _ hmembers (.int (by decide +kernel))) hthickness),
      sound_optional "color" hmembers (.text standardColor),
      sound_optional "text" hmembers .null])

theorem sound_overlay {o : CameraOverlay} (hv : v.Sound)
    (h : readOverlay v = .ok o) : (ofOverlay o).Sound := by
  obtain ⟨ms, hms, h⟩ := bind_eq_ok h
  obtain ⟨position, _, h⟩ := bind_eq_ok h
  obtain ⟨margin, hmargin, h⟩ := bind_eq_ok h
  obtain ⟨scale, _, h⟩ := bind_eq_ok h
  obtain ⟨x, _, h⟩ := bind_eq_ok h
  obtain ⟨y, _, h⟩ := bind_eq_ok h
  cases h
  exact .object (by simp) (by
    simp [Json.Sound.int (whole_lt (sound_optional _ (sound_members hv hms)
      (.int (by decide +kernel))) hmargin)])

theorem sound_list {α : Type} {write : α → Json} {as : List α}
    (h : ∀ a ∈ as, (write a).Sound) : (Json.list (as.map write)).Sound :=
  .list (List.forall_mem_map.2 h)

theorem sound_edits {p : Project} {now : Timestamp}
    {ms es : List (String × Json)} (hes : (Json.object es).Sound)
    (h : p.TakenFrom now ms es) : (ofEdits p.edits).Sound := by
  have hsegments := sound_list (forall_of_readEdits sound_segment hes h.segments)
  have hzoom := sound_list (forall_of_readEdits sound_zoom hes h.zoom)
  have hspeed := sound_list (forall_of_readEdits sound_speed hes h.speed)
  have hannotations :=
    sound_list (forall_of_readEdits sound_annotation hes h.annotations)
  have hoverlay := sound_overlay (sound_given hes) h.overlay
  have hmix : (ofMix p.edits.mix).Sound := .object (by simp) (by simp)
  exact .object (by simp)
    (by simp [hsegments, hzoom, hspeed, hannotations, hoverlay, hmix])

theorem sound_unlessNull (name : String) (hv : v.Sound) :
    ∀ m ∈ unlessNull name v, m.2.Sound := by
  cases v <;> simp [unlessNull, hv]

theorem names_unlessNull (name : String) (v : Json) :
    ((unlessNull name v).map (·.1)).Sublist [name] := by
  cases v <;> simp [unlessNull]

end Document

open Document

namespace Project

theorem names_toJson (p : Project) :
    ((fixedMembers p ++ looseMembers p).map (·.1)).Nodup := by
  have hloose := (((names_unlessNull "cameraVideoPath" p.camera).append
    (names_unlessNull "microphoneAudioPath" p.microphone)).append
    (names_unlessNull "cameraOffsetMs" p.cameraOffset)).append
    (names_unlessNull "microphoneOffsetMs" p.microphoneOffset)
  have hnames := (List.Sublist.refl ((fixedMembers p).map (·.1))).append hloose
  rw [List.map_append, looseMembers, List.map_append, List.map_append,
    List.map_append]
  exact hnames.nodup (by simp [fixedMembers])

/-- The document of a project that was taken from a sound one is sound. -/
theorem sound_toJson {now : Timestamp} {doc : Json} {p : Project}
    (hdoc : doc.Sound) (h : Project.ofJson now doc = .ok p) :
    p.toJson.Sound := by
  obtain ⟨ms, es, rfl, htaken⟩ := takenFrom_of_ofJson h
  have hes := sound_members (sound_given hdoc) htaken.members
  have hwhole : ∀ {name n}, (need "resolution" (.object ms) >>= need name >>=
      Document.whole) = .ok n → (Json.int n).Sound := by
    intro name n hn
    obtain ⟨v, hv, hn⟩ := bind_eq_ok hn
    obtain ⟨r, hr, hv⟩ := bind_eq_ok hv
    exact .int (whole_lt (sound_need (sound_need hdoc hr) hv) hn)
  have hresolution : (Json.object [("width", .int p.resolution.width),
      ("height", .int p.resolution.height)]).Sound :=
    .object (by simp) (by simp [hwhole htaken.width, hwhole htaken.height])
  have hname : p.name.Sound := htaken.name ▸ sound_optional _ hdoc (.text "")
  have hcamera : p.camera.Sound := htaken.camera ▸ sound_optional _ hdoc .null
  have hmicrophone : p.microphone.Sound :=
    htaken.microphone ▸ sound_optional _ hdoc .null
  have hcameraOffset : p.cameraOffset.Sound :=
    htaken.cameraOffset ▸ sound_optional _ hdoc .null
  have hmicrophoneOffset : p.microphoneOffset.Sound :=
    htaken.microphoneOffset ▸ sound_optional _ hdoc .null
  rw [toJson_eq]
  refine .object (names_toJson p) ?_
  simp only [looseMembers, List.forall_mem_append]
  refine ⟨?_, ⟨⟨sound_unlessNull _ hcamera, sound_unlessNull _ hmicrophone⟩,
    sound_unlessNull _ hcameraOffset⟩, sound_unlessNull _ hmicrophoneOffset⟩
  simp [fixedMembers, sound_need hdoc htaken.id, hname,
    sound_need hdoc htaken.screen, hresolution, sound_edits hes htaken]

end Project

/-! ## The text of a document -/

namespace Json.Printer

theorem return_notMem_escape (c : Char) : '\r' ∉ escape c := by
  have hhex : ∀ n < 32, '\r' ∉ Text.hex 4 n := by decide
  rw [escape]
  split
  · next hself =>
      rw [Bool.or_eq_true, beq_iff_eq, beq_iff_eq] at hself
      rcases hself with rfl | rfl <;> decide
  split
  · decide
  split
  · decide
  split
  · decide
  split
  · decide
  split
  · decide
  split
  · next hlow =>
      simp only [List.mem_cons, not_or]
      exact ⟨by decide, by decide, hhex _ hlow⟩
  · next hreturn _ _ _ _ =>
      rw [List.mem_singleton]
      rintro rfl
      exact hreturn rfl

theorem return_notMem_quotedText (s : String) : '\r' ∉ quotedText s := by
  simp [quotedText, return_notMem_escape]

theorem return_notMem_numeric {cs : List Char} (h : Numeric cs) : '\r' ∉ cs :=
  fun hmem => absurd (h _ hmem) (by decide)

theorem return_notMem_newline (level : Nat) : '\r' ∉ newline level := by
  simp [newline, List.mem_replicate]

mutual

/-- What is written has no ends of lines but line feeds. -/
theorem return_notMem_value (level : Nat) (v : Json) : '\r' ∉ value level v := by
  match v with
  | .null | .bool true | .bool false => simp [value]
  | .int n => exact return_notMem_numeric (Binary64.numeric_toString n)
  | .real (.finite s q hrep) =>
      exact return_notMem_numeric (Binary64.numeric_toShortest rfl)
  | .real (.infinite true) | .real (.infinite false) | .real .nan =>
      simp [value, real, Decimal.minus]
  | .text s => exact return_notMem_quotedText s
  | .list [] => simp [value]
  | .list (v :: vs) =>
      simp [value, return_notMem_newline, return_notMem_value _ v,
        return_notMem_items _ vs]
  | .object [] => simp [value]
  | .object (m :: ms) =>
      simp [value, return_notMem_newline, return_notMem_member _ m,
        return_notMem_members _ ms]

theorem return_notMem_items (level : Nat) (vs : List Json) :
    '\r' ∉ items level vs := by
  match vs with
  | [] => exact List.not_mem_nil
  | v :: vs =>
      simp [items, return_notMem_newline, return_notMem_value _ v,
        return_notMem_items _ vs]

theorem return_notMem_member (level : Nat) (m : String × Json) :
    '\r' ∉ member level m := by
  match m with
  | (name, v) =>
      simp [member, return_notMem_quotedText, return_notMem_value _ v]

theorem return_notMem_members (level : Nat) (ms : List (String × Json)) :
    '\r' ∉ members level ms := by
  match ms with
  | [] => exact List.not_mem_nil
  | m :: ms =>
      simp [members, return_notMem_newline, return_notMem_member _ m,
        return_notMem_members _ ms]

end

end Json.Printer

/-- A text without carriage returns is read from its bytes as it is. -/
theorem Text.Utf8.text_toUTF8 {s : String} (h : '\r' ∉ s.toList) :
    Text.Utf8.text s.toUTF8 = .ok s := by
  have hdecode : String.fromUTF8? s.toUTF8 = some s := by
    rw [String.fromUTF8?, dif_pos (show s.toUTF8.IsValidUTF8 from s.isValidUTF8)]
    rfl
  rw [Text.Utf8.text, Text.Utf8.decode, hdecode]
  change Except.ok (String.ofList (unifyLines s.toList)) = _
  rw [unifyLines_of_notMem h, String.ofList_toList]

/-- A project can be stored when it is taken back from its document, and the
document from its text. -/
structure Project.Stored (p : Project) : Prop where
  createdAt : p.createdAt.ReadsBack
  sound : p.toJson.Sound

/-- A project that was taken from a text can be stored. -/
theorem Project.stored_of_read {now : Timestamp} {s : String} {doc : Json}
    {p : Project} (hnow : now.offset = 0) (hread : Json.read s = .ok doc)
    (h : Project.ofJson now doc = .ok p) : p.Stored := by
  obtain ⟨ms, es, _, htaken⟩ := takenFrom_of_ofJson h
  exact ⟨readsBack_of_readCreatedAt hnow htaken.createdAt,
    sound_toJson (Json.sound_of_read hread) h⟩

/-- The document in a file is the one that was written to it. -/
theorem Library.document_written {ms : List (String × Json)}
    (h : (Json.object ms).Sound) :
    document (Json.write (.object ms)).toUTF8 = .ok (.object ms) := by
  have htext : Text.Utf8.text (Json.write (.object ms)).toUTF8 =
      .ok (Json.write (.object ms)) := by
    refine Text.Utf8.text_toUTF8 ?_
    rw [Json.write, String.toList_ofList]
    exact Json.Printer.return_notMem_value 0 (.object ms)
  have hread : (Json.read (Json.write (.object ms))).mapError
    ParseFault.unreadable =
      .ok (.object ms) := mapError_eq_ok.2 (Json.read_write h)
  rw [document, mapError_eq_ok.2 htext, ok_bind, hread, ok_bind]
  rfl

/-- The project in a file is the one that was written to it. -/
theorem Library.parse_written {p : Project} (h : p.Stored) (now : Timestamp)
    (path : FilePath) :
    parse now path (Json.write p.toJson).toUTF8 = .ok p := by
  have hdocument : (document (Json.write p.toJson).toUTF8).mapError
      (Fault.unparsable path) = .ok p.toJson :=
    mapError_eq_ok.2 (document_written h.sound)
  rw [parse, hdocument, ok_bind]
  exact mapError_eq_ok.2 (Project.ofJson_toJson h.createdAt now)

end Cutlist
