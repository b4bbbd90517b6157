import Lockbox.Agent.Message
import Lockbox.Container.Text
import Lockbox.Envelope.Basic
import Lockbox.Proofs.Encoding.Base64
import Lockbox.Proofs.Json.Records

namespace Lockbox

/-!
# What the decoders accept

Requests, responses, envelopes and the entries of a container are records of known fields, and what
a text decodes to is told by these fields alone.

* `Request.Told`, `Response.Told`, `Envelope.Told`, `Container.EntryTold` — what the fields tell.
* `ReadsTexts` — a text is decoded by way of the value that it writes.
* `decoders_read_known_fields` — the texts that are accepted, and what for.
* `refuses_minus_zero_and_stray_surrogates` — two texts that are well-formed and still refused.
-/

open Json (Tells TellsIfThere TellsInt32 ReadsFields content)

/-! ### What the fields tell -/

/-- The request that its fields tell. -/
def Request.Told (field : String → Option Json) (request : Request) : Prop :=
  (∃ command, Tells (field "Command") command ∧ request.command = Command.ofText command) ∧
    TellsIfThere (field "PwName") request.name ∧ TellsIfThere (field "PwData") request.data

/-- The response that its fields tell. -/
def Response.Told (field : String → Option Json) (response : Response) : Prop :=
  TellsInt32 (field "ResultCode") response.code ∧ TellsIfThere (field "ResultData") response.data

/-- A field that must be there holds these bytes, in Base64 with its padding. -/
def TellsBytes (field : Option Json) (b : Bytes) : Prop :=
  Tells field (String.ofList (Base64.encode b))

/-- The envelope that its fields tell. -/
def Envelope.Told (field : String → Option Json) (e : Envelope) : Prop :=
  Tells (field "PbKdf") e.derivation ∧ TellsBytes (field "Salt") e.salt ∧
    TellsBytes (field "Nonce") e.nonce ∧ TellsBytes (field "Data") e.data

/-- The name and the text of an entry that its fields tell. -/
def Container.EntryTold (field : String → Option Json) (entry : String × String) : Prop :=
  Tells (field "Key") entry.1 ∧ Tells (field "Text") entry.2

theorem bytesOfJson?_eq_some_iff {field : Option Json} {b : Bytes} :
    Envelope.bytesOfJson? field = some b ↔ TellsBytes field b := by
  have hdigits : ∀ s : String,
      s.toList = Base64.encode b ↔ s = String.ofList (Base64.encode b) := by
    intro s
    rw [← String.toList_inj, String.toList_ofList]
  rw [Envelope.bytesOfJson?, Option.bind_eq_bind, Option.bind_eq_some_iff, TellsBytes]
  simp only [Base64.decode?_eq_some_iff, hdigits, exists_eq_right, Json.required?_eq_some_iff]

/-! ### The decoders -/

namespace Request

theorem readsFields : ReadsFields ofJson? fieldNames Told := by
  refine Json.readsFields_of (by decide) (fun _ => rfl) ?_ ?_
  · intro field request
    simp only [fieldNames, List.map_cons, List.map_nil, Option.bind_eq_bind, Option.pure_def,
      Option.bind_eq_some_iff, Json.required?_eq_some_iff, Json.optional?_eq_some_iff,
      Option.some.injEq]
    constructor
    · rintro ⟨command, hcommand, name, hname, data, hdata, rfl⟩
      exact ⟨⟨command, hcommand, rfl⟩, hname, hdata⟩
    · rintro ⟨⟨command, hcommand, hof⟩, hname, hdata⟩
      exact ⟨command, hcommand, _, hname, _, hdata, by rw [← hof]⟩
  · rintro field field' request h ⟨⟨command, hcommand, hof⟩, hname, hdata⟩
    exact ⟨⟨command, hcommand.congr (h _ (by decide)), hof⟩, hname.congr (h _ (by decide)),
      hdata.congr (h _ (by decide))⟩

end Request

namespace Response

theorem readsFields : ReadsFields ofJson? fieldNames Told := by
  refine Json.readsFields_of (by decide) (fun _ => rfl) ?_ ?_
  · intro field response
    simp only [fieldNames, List.map_cons, List.map_nil, Option.bind_eq_bind, Option.pure_def,
      Option.bind_eq_some_iff, Json.int32?_eq_some_iff, Json.optional?_eq_some_iff,
      Option.some.injEq]
    constructor
    · rintro ⟨value, hvalue, code, hcode, data, hdata, rfl⟩
      exact ⟨by rwa [hvalue], hdata⟩
    · rintro ⟨⟨literal, hvalue, hcode⟩, hdata⟩
      exact ⟨_, hvalue, _, ⟨literal, rfl, hcode⟩, _, hdata, rfl⟩
  · rintro field field' response h ⟨hcode, hdata⟩
    exact ⟨hcode.congr (h _ (by decide)), hdata.congr (h _ (by decide))⟩

end Response

namespace Envelope

theorem readsFields : ReadsFields ofJson? fieldNames Told := by
  refine Json.readsFields_of (by decide) (fun _ => rfl) ?_ ?_
  · intro field e
    simp only [fieldNames, List.map_cons, List.map_nil, Option.bind_eq_bind, Option.pure_def,
      Option.bind_eq_some_iff, Json.required?_eq_some_iff, bytesOfJson?_eq_some_iff,
      Option.some.injEq]
    constructor
    · rintro ⟨derivation, hderivation, salt, hsalt, nonce, hnonce, data, hdata, rfl⟩
      exact ⟨hderivation, hsalt, hnonce, hdata⟩
    · rintro ⟨hderivation, hsalt, hnonce, hdata⟩
      exact ⟨_, hderivation, _, hsalt, _, hnonce, _, hdata, rfl⟩
  · rintro field field' e h ⟨hderivation, hsalt, hnonce, hdata⟩
    exact ⟨hderivation.congr (h _ (by decide)), hsalt.congr (h _ (by decide)),
      hnonce.congr (h _ (by decide)), hdata.congr (h _ (by decide))⟩

end Envelope

namespace Container

theorem readsFields : ReadsFields entryOfJson? fieldNames EntryTold := by
  refine Json.readsFields_of (by decide) (fun _ => rfl) ?_ ?_
  · intro field entry
    simp only [fieldNames, List.map_cons, List.map_nil, Option.bind_eq_bind, Option.pure_def,
      Option.bind_eq_some_iff, Json.required?_eq_some_iff, Option.some.injEq]
    constructor
    · rintro ⟨name, hname, text, htext, rfl⟩
      exact ⟨hname, htext⟩
    · rintro ⟨hname, htext⟩
      exact ⟨_, hname, _, htext, rfl⟩
  · rintro field field' entry h ⟨hname, htext⟩
    exact ⟨hname.congr (h _ (by decide)), htext.congr (h _ (by decide))⟩

/-- A text is a container if it writes a list of entries; the last entry of a name counts. -/
theorem ofText?_eq_ok_iff {b : Bytes} {d : Derivation} {c : Container} :
    ofText? b d = .ok c ↔ ∃ items entries, (Json.array items).WrittenAs b ∧
      List.Forall₂ (fun item entry => entryOfJson? item = some entry) items entries ∧
      c = { derivation := d
            entries := entries.foldl (fun map entry => map.insert entry.1 entry.2) ∅ } := by
  have hread : ofText? b d = .ok c ↔ (Json.parse? b).bind (ofJson? d) = some c := by
    rw [ofText?]
    cases (Json.parse? b).bind (ofJson? d) <;> simp
  rw [hread, Option.bind_eq_some_iff]
  constructor
  · rintro ⟨value, hvalue, hc⟩
    cases value with
    | array items =>
      simp only [ofJson?, Option.bind_eq_bind, Option.bind_eq_some_iff, Option.pure_def,
        Option.some.injEq] at hc
      obtain ⟨entries, hentries, rfl⟩ := hc
      exact ⟨items, entries, Json.parse?_eq_some_iff.mp hvalue,
        Json.mapM_eq_some_iff.mp hentries, rfl⟩
    | null | bool _ | number _ | text _ | object _ => simp [ofJson?] at hc
  · rintro ⟨items, entries, hwritten, hentries, rfl⟩
    refine ⟨_, Json.parse?_eq_some_iff.mpr hwritten, ?_⟩
    rw [ofJson?, Json.mapM_eq_some_iff.mpr hentries]
    rfl

end Container

/-! ### Texts -/

/-- A text is decoded by way of the value that it writes, if it writes one. -/
structure ReadsTexts {α : Type} (decode : Bytes → Option α) (ofJson? : Json → Option α) :
    Prop where
  /-- Whatever blanks and escapes a value is written with. -/
  written : ∀ value b, value.WrittenAs b → decode b = ofJson? value
  /-- What is no JSON text is not decoded. -/
  notWritten : ∀ b, (∀ value : Json, ¬value.WrittenAs b) → decode b = none

/-- A decoder that parses first. -/
theorem readsTexts_of {α : Type} {decode : Bytes → Option α} {ofJson? : Json → Option α}
    (h : ∀ b, decode b = (Json.parse? b).bind ofJson?) : ReadsTexts decode ofJson? where
  written value b hwritten := by rw [h, Json.parse?_eq_some_iff.mpr hwritten, Option.bind_some]
  notWritten b hnone := by
    rw [h]
    cases hparse : Json.parse? b with
    | none => rfl
    | some value => exact absurd (Json.parse?_eq_some_iff.mp hparse) (hnone value)

/-- **What the decoders accept.**  A text decodes if it writes a value whose known fields tell a
    record, and the record is the one that they tell: neither the order of members, nor members with
    other names, nor blanks and escapes count. -/
theorem decoders_read_known_fields :
    (ReadsTexts Request.ofBytes? Request.ofJson? ∧
      ReadsFields Request.ofJson? Request.fieldNames Request.Told) ∧
    (ReadsTexts Response.ofBytes? Response.ofJson? ∧
      ReadsFields Response.ofJson? Response.fieldNames Response.Told) ∧
    (ReadsTexts Envelope.ofBytes? Envelope.ofJson? ∧
      ReadsFields Envelope.ofJson? Envelope.fieldNames Envelope.Told) ∧
    (∀ b d c, Container.ofText? b d = .ok c ↔ ∃ items entries, (Json.array items).WrittenAs b ∧
      List.Forall₂ (fun item entry => Container.entryOfJson? item = some entry) items entries ∧
      c = { derivation := d
            entries := entries.foldl (fun map entry => map.insert entry.1 entry.2) ∅ }) ∧
    ReadsFields Container.entryOfJson? Container.fieldNames Container.EntryTold :=
  ⟨⟨readsTexts_of fun _ => rfl, Request.readsFields⟩,
    ⟨readsTexts_of fun _ => rfl, Response.readsFields⟩,
    ⟨readsTexts_of fun _ => rfl, Envelope.readsFields⟩,
    fun _ _ _ => Container.ofText?_eq_ok_iff, Container.readsFields⟩

/-- Well-formed is not enough: minus zero is a whole number in the range of a code, and an unknown
    member may have an unpaired surrogate in its name, but neither text is accepted. -/
theorem refuses_minus_zero_and_stray_surrogates :
    (∃ members, (Json.object members).WrittenAs (Bytes.ofText "\x7b\"ResultCode\":-0\x7d") ∧
      Json.Named members [("ResultCode", .number (Bytes.ofText "-0"))] ∧
      Json.IsInteger (Bytes.ofText "-0") 0) ∧
    Response.ofBytes? (Bytes.ofText "\x7b\"ResultCode\":-0\x7d") = none ∧
    (∃ command units value, (Json.object [(command, Json.ofText "GET"), (units, value)]).WrittenAs
        (Bytes.ofText "\x7b\"Command\":\"GET\",\"\\ud800\":0\x7d") ∧
      Json.TextUnit.toText? command = some "Command" ∧ Json.TextUnit.toText? units = none) ∧
    Request.ofBytes? (Bytes.ofText "\x7b\"Command\":\"GET\",\"\\ud800\":0\x7d") = none := by
  refine ⟨⟨[(Json.TextUnit.ofText "ResultCode", .number (Bytes.ofText "-0"))], ?_, ?_, ?_⟩, rfl,
    ⟨Json.TextUnit.ofText "Command", [.utf16 0xd800], .number (Bytes.ofText "0"), ?_, rfl, rfl⟩,
    rfl⟩
  · exact Json.parse?_eq_some_iff.mp rfl
  · exact .cons ⟨rfl, rfl⟩ .nil
  · exact ⟨Bytes.ofText "0", 0, rfl, .inr ⟨rfl, rfl⟩⟩
  · exact Json.parse?_eq_some_iff.mp rfl

end Lockbox
