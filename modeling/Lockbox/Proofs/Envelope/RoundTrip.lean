import Lockbox.Proofs.Decoding
import Lockbox.Proofs.Encoding.Bits
import Lockbox.Proofs.Envelope

namespace Lockbox.Envelope

/-!
# Envelopes written again

What an envelope is read from may have blanks, escapes and other members, in any order, but of the
four fields nothing is lost: the texts that they hold are those that the envelope is written with.

* `bytesOfJson?_iff_required?`, `bytesOfJson?_iff_bytesToJson`, `bytesOfJson?_iff_spells` — the
  texts of byte strings.
* `texts`, `textsOf?` — the texts of the fields, of an envelope and of a text.
* `ofBytes?_iff_textsOf?` — a text is an envelope if its fields hold the texts of one.
* `rewrite?` — a text read and written again.
* `texts_round_trip` — nothing changes after the first time.
-/

/-! ### Byte strings -/

/-- A byte string is read from a field that holds its digits. -/
theorem bytesOfJson?_iff_required? {field : Option Json} {b : Bytes} :
    bytesOfJson? field = some b ↔
      Json.required? field = some (String.ofList (Base64.encode b)) := by
  rw [bytesOfJson?_eq_some_iff, TellsBytes, Json.required?_eq_some_iff]

/-- A byte string is read from the text that it is written as, and from no other one. -/
theorem bytesOfJson?_iff_bytesToJson {field : Option Json} {s : String}
    (h : Json.required? field = some s) (b : Bytes) :
    bytesOfJson? field = some b ↔ bytesToJson b = Json.ofText s := by
  rw [bytesOfJson?_iff_required?, h, Option.some.injEq]
  constructor
  · rintro rfl
    rfl
  · intro hwritten
    have hstring := congrArg Json.string? hwritten
    rw [bytesToJson, Json.string?_ofText, Json.string?_ofText] at hstring
    exact (Option.some.inj hstring).symm

/-- A byte string is read from a text that spells its bits. -/
theorem bytesOfJson?_iff_spells {field : Option Json} {s : String}
    (h : Json.required? field = some s) (b : Bytes) :
    bytesOfJson? field = some b ↔ Base64.Spells s.toList b := by
  rw [bytesOfJson?, h]
  exact Base64.decode?_eq_some_iff_spells

/-! ### The texts of the fields -/

/-- The texts that the fields of an envelope are written as. -/
def texts (e : Envelope) : List String :=
  [e.derivation, String.ofList (Base64.encode e.salt), String.ofList (Base64.encode e.nonce),
    String.ofList (Base64.encode e.data)]

/-- The texts that the fields hold, in a text. -/
def textsOf? (text : Bytes) : Option (List String) := do
  let value ← Json.parse? text
  let fields ← value.fields? fieldNames
  fields.mapM Json.required?

/-- An envelope is read from fields that hold its texts. -/
theorem ofJson?_eq_some_iff {value : Json} {e : Envelope} :
    ofJson? value = some e ↔ ∃ fields,
      value.fields? fieldNames = some fields ∧ fields.mapM Json.required? = some e.texts := by
  rw [ofJson?, Option.bind_eq_bind, Option.bind_eq_some_iff]
  simp only [Json.mapM_eq_some_iff]
  constructor
  · rintro ⟨fields, hfields, h⟩
    refine ⟨fields, hfields, ?_⟩
    split at h
    · simp only [Option.bind_eq_bind, Option.bind_eq_some_iff, Option.pure_def,
        Option.some.injEq, bytesOfJson?_iff_required?] at h
      obtain ⟨_, hderivation, _, hsalt, _, hnonce, _, hdata, rfl⟩ := h
      exact .cons hderivation (.cons hsalt (.cons hnonce (.cons hdata .nil)))
    · cases h
  · rintro ⟨fields, hfields, htexts⟩
    refine ⟨fields, hfields, ?_⟩
    obtain _ | ⟨hderivation, _ | ⟨hsalt, _ | ⟨hnonce, _ | ⟨hdata, _ | _⟩⟩⟩⟩ := htexts
    rw [← bytesOfJson?_iff_required?] at hsalt hnonce hdata
    dsimp only
    rw [hderivation, hsalt, hnonce, hdata]
    rfl

/-- A text is an envelope exactly if its fields hold the texts of the envelope. -/
theorem ofBytes?_iff_textsOf? {text : Bytes} {e : Envelope} :
    ofBytes? text = some e ↔ textsOf? text = some e.texts := by
  simp only [ofBytes?, textsOf?, Option.bind_eq_bind, Option.bind_eq_some_iff, ofJson?_eq_some_iff]

/-! ### Written again -/

/-- A text read as an envelope and written again. -/
def rewrite? (text : Bytes) : Option Bytes := (ofBytes? text).map toBytes

theorem rewrite?_eq_some_iff {text again : Bytes} :
    rewrite? text = some again ↔ ∃ e, ofBytes? text = some e ∧ again = e.toBytes := by
  rw [rewrite?, Option.map_eq_some_iff]
  simp only [@eq_comm _ again]

/-- **Envelopes survive their texts.**  Every envelope is read from its text.  A byte string is read
    from a field exactly if the text of the field is the one that it is written as, which is the
    only one that spells its bits: four characters for three bytes, nothing but digits and padding.
    So a text that is read and written again has the texts of its fields as before, is read as the
    same envelope, and stays as it is from then on. -/
theorem texts_round_trip :
    (∀ e : Envelope, ofBytes? e.toBytes = some e) ∧
    (∀ field s, Json.required? field = some s → ∀ b,
      (bytesOfJson? field = some b ↔ bytesToJson b = Json.ofText s) ∧
      (bytesOfJson? field = some b ↔ Base64.Spells s.toList b) ∧
      (bytesOfJson? field = some b → s.toList.length = 4 * ((b.length + 2) / 3) ∧
        ∀ c ∈ s.toList, c ∈ Base64.alphabet ∨ c = '=')) ∧
    (∀ field other b, bytesOfJson? field = some b → bytesOfJson? other = some b →
      Json.required? field = Json.required? other) ∧
    (∀ text e, ofBytes? text = some e ↔ textsOf? text = some e.texts) ∧
    ∀ text again, rewrite? text = some again →
      rewrite? again = some again ∧ ofBytes? again = ofBytes? text ∧
        textsOf? again = textsOf? text := by
  refine ⟨ofBytes?_toBytes, fun field s h b => ?_, ?_, fun _ _ => ofBytes?_iff_textsOf?, ?_⟩
  · have hspells := bytesOfJson?_iff_spells h b
    refine ⟨bytesOfJson?_iff_bytesToJson h b, hspells, fun hread => ?_⟩
    exact ⟨(hspells.mp hread).length_eq, fun c hc => (hspells.mp hread).mem_alphabet hc⟩
  · intro field other b hfield hother
    rw [bytesOfJson?_iff_required?.mp hfield, bytesOfJson?_iff_required?.mp hother]
  · intro text again h
    obtain ⟨e, htext, rfl⟩ := rewrite?_eq_some_iff.mp h
    have hagain := ofBytes?_toBytes e
    refine ⟨rewrite?_eq_some_iff.mpr ⟨e, hagain, rfl⟩, hagain.trans htext.symm, ?_⟩
    rw [ofBytes?_iff_textsOf?.mp htext, ofBytes?_iff_textsOf?.mp hagain]

/-- An envelope on one line, in another order, with an escape and a member of another name: it is
    written again with the texts of its fields as before, and then stays as it is. -/
theorem compact_envelope_rewritten :
    let text := Bytes.ofText
      "\x7b\"Data\":\"\",\"Nonce\":\"Ag=\\u003d\",\"x\":0,\"Salt\":\"AAE=\",\"PbKdf\":\"kdf\"\x7d"
    let e : Envelope := { derivation := "kdf", salt := [0, 1], nonce := [2], data := [] }
    rewrite? text = some e.toBytes ∧ rewrite? e.toBytes = some e.toBytes ∧
      ofBytes? e.toBytes = some e ∧ textsOf? e.toBytes = some ["kdf", "AAE=", "Ag==", ""] ∧
      Base64.Spells "Ag==".toList [2] ∧ bytesOfJson? (some (Json.ofText "Ah==")) = none := by
  intro text e
  obtain ⟨hread, hbytes, -, -, hagain⟩ := texts_round_trip
  have hrewrite : rewrite? text = some e.toBytes := by
    rw [rewrite?, show ofBytes? text = some e from rfl, Option.map_some]
  obtain ⟨hfixed, -, htexts⟩ := hagain text e.toBytes hrewrite
  refine ⟨hrewrite, hfixed, hread e, htexts.trans rfl, ?_, rfl⟩
  obtain ⟨-, hspells, -⟩ := hbytes (some (Json.ofText "Ag==")) "Ag==" rfl [2]
  exact hspells.mp rfl

end Lockbox.Envelope
