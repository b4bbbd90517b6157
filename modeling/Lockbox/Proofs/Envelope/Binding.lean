import Lockbox.Proofs.Envelope.Stages

namespace Lockbox.Codec

/-!
# One ciphertext for one text

A ciphertext is made of the text alone, once the key and the nonce are fixed, and only what is made
so is opened.  So no other data can be put into an envelope for the same text to come out of it.

* `exists_key_of_unwrap` — an envelope that opens, with any other data.
* `unwrap_forged`, `encrypt_of_unwrapped` — data that is made of no text, and data that is made of
  one.
* `one_ciphertext_for_one_text` — what other data comes to.
-/

section

variable {codec : Codec} {suite : Suite} (hcipher : codec.cipher = suite.cipher)
  {password text : Bytes} {e : Envelope} {d : Derivation}

include hcipher

/-- With other data, an envelope that opens gets as far as the cipher, under the same key. -/
theorem exists_key_of_unwrap (h : codec.unwrap password e = .ok (text, d)) :
    ∃ key, (suite.aead key).encrypt e.nonce text = .ok e.data ∧
      ∀ data, codec.unwrap password { e with data } =
        (((suite.aead key).decrypt e.nonce data).mapError .cipher).map (·, d) := by
  rw [← decrypt_of_ofBytes? codec password e.ofBytes?_toBytes, decrypt_eq_iff hcipher] at h
  cases h with
  | opened hread hid hstrategy hkey hnonce hdata =>
    obtain rfl := Option.some.inj (e.ofBytes?_toBytes.symm.trans hread)
    refine ⟨_, hdata, fun data => ?_⟩
    exact (unwrap_of_key hcipher (e := { e with data }) hid hstrategy hkey).trans
      (if_neg (not_not_intro hnonce))

end

/-- Data that the cipher makes of no text is refused as a forgery. -/
theorem unwrap_forged {suite : Suite} {key : Key} {nonce data : Bytes} (d : Derivation)
    (h : ∀ text, (suite.aead key).encrypt nonce text ≠ .ok data) :
    (((suite.aead key).decrypt nonce data).mapError EnvelopeError.cipher).map (·, d) =
      .error (.cipher .notAuthentic) := by
  rw [Suite.aead, Aead.decrypt_eq_error_iff.mpr ⟨rfl, h⟩]
  rfl

/-- What comes out of an envelope is what the cipher makes its data of. -/
theorem encrypt_of_unwrapped {suite : Suite} {key : Key} {nonce data text : Bytes}
    {d made : Derivation}
    (h : (((suite.aead key).decrypt nonce data).mapError EnvelopeError.cipher).map (·, d) =
      .ok (text, made)) : (suite.aead key).encrypt nonce text = .ok data := by
  cases hdecrypt : (suite.aead key).decrypt nonce data with
  | error error =>
    rw [hdecrypt] at h
    cases h
  | ok other =>
    rw [hdecrypt] at h
    obtain ⟨rfl, -⟩ := Prod.mk.inj (Except.ok.inj h)
    exact Aead.decrypt_eq_ok_iff.mp hdecrypt

/-- **There is one ciphertext for one text**, with every suite, all strategies and any password.
    Envelopes that open to the same text differ in more than the data.  If an envelope opens, its
    data ends in a tag of sixteen bytes, and with any other sixteen bytes in place of the tag, or
    with any data that is shorter than a tag, it is refused as a forgery. -/
theorem one_ciphertext_for_one_text (suite : Suite) (registry : Registry) (saltSize : Nat)
    (password : Bytes) :
    let codec : Codec := { registry, cipher := suite.cipher, saltSize }
    (∀ e other : Envelope, e.derivation = other.derivation → e.salt = other.salt →
      e.nonce = other.nonce → ∀ text d made, codec.unwrap password e = .ok (text, d) →
      codec.unwrap password other = .ok (text, made) → e.data = other.data) ∧
    ∀ e text d, codec.unwrap password e = .ok (text, d) →
      (∃ body tag, e.data = body ++ tag ∧ tag.length = 16 ∧ body.length = text.length ∧
        ∀ forged : Bytes, forged.length = 16 → forged ≠ tag →
          codec.unwrap password { e with data := body ++ forged } =
            .error (.cipher .notAuthentic)) ∧
      ∀ short : Bytes, short.length < 16 →
        codec.unwrap password { e with data := short } = .error (.cipher .notAuthentic) := by
  intro codec
  have hcipher : codec.cipher = suite.cipher := rfl
  constructor
  · rintro ⟨id, salt, nonce, one⟩ ⟨_, _, _, two⟩ rfl rfl rfl text d made hopens hother
    obtain ⟨key, hone, hdata⟩ := exists_key_of_unwrap hcipher hopens
    rw [show codec.unwrap password _ = _ from hdata two] at hother
    exact Except.ok.inj (hone.symm.trans (encrypt_of_unwrapped hother))
  · intro e text d hopens
    obtain ⟨key, hdata, hunwrap⟩ := exists_key_of_unwrap hcipher hopens
    constructor
    · obtain ⟨body, tag, hparts, htag⟩ := Aead.exists_tag hdata
      rw [hparts] at hdata
      obtain ⟨htext, hbody⟩ := Aead.text_eq_mask htag hdata
      refine ⟨body, tag, hparts, htag, hbody, fun forged hforged hne => ?_⟩
      rw [hunwrap]
      refine unwrap_forged d fun other hother => hne ?_
      -- What stands before the tag tells the text, and the text tells the tag.
      obtain ⟨hsame, -⟩ := Aead.text_eq_mask hforged hother
      rw [hsame, ← htext, hdata] at hother
      exact (List.append_cancel_left (Except.ok.inj hother)).symm
    · intro short hshort
      rw [hunwrap]
      refine unwrap_forged d fun other hother => ?_
      obtain ⟨body, tag, rfl, htag⟩ := Aead.exists_tag hother
      rw [List.length_append, htag] at hshort
      exact absurd hshort (Nat.not_lt.mpr (Nat.le_add_left 16 body.length))

/-- An envelope for two bytes, made with a strategy that ignores password and salt.  Nothing else
    opens to them, and it is refused with every byte of the tag counted up by one, and with data of
    three bytes. -/
theorem two_bytes_bound :
    let registry := Registry.empty.insert .scrypt fun _ _ => .ok (Vector.replicate 32 42)
    let codec : Codec := { registry, cipher := Suite.aes192Gcm.cipher, saltSize := 16 }
    ∃ e, codec.unwrap [112] e = .ok ([1, 2], .scrypt) ∧
      (∀ data, codec.unwrap [112] { e with data } = .ok ([1, 2], .scrypt) → e.data = data) ∧
      (∃ body tag, e.data = body ++ tag ∧ tag.length = 16 ∧ body.length = 2 ∧
        codec.unwrap [112] { e with data := body ++ tag.map (· + 1) } =
          .error (.cipher .notAuthentic)) ∧
      codec.unwrap [112] { e with data := [1, 2, 3] } = .error (.cipher .notAuthentic) := by
  intro registry codec
  have hcipher : codec.cipher = Suite.aes192Gcm.cipher := rfl
  have hstrategy : codec.registry.strategy? .scrypt =
    some fun _ _ => .ok (Vector.replicate 32 42) := rfl
  let nonce : Bytes := List.replicate 12 0
  obtain ⟨data, hdata⟩ : ∃ data, (Suite.aes192Gcm.aead (Vector.replicate 32 42)).encrypt nonce
      [1, 2] = .ok data := ⟨_, Aead.encrypt_eq_ok_iff.mpr ⟨rfl, rfl⟩⟩
  let e : Envelope := { derivation := "scrypt", salt := [], nonce, data }
  have hid : e.derivation ∈ Derivation.scrypt.ids := List.mem_singleton.mpr rfl
  have hopens : codec.unwrap [112] e = .ok ([1, 2], .scrypt) := by
    rw [← decrypt_of_ofBytes? codec _ e.ofBytes?_toBytes, decrypt_eq_iff hcipher]
    exact .opened e.ofBytes?_toBytes hid hstrategy rfl rfl hdata
  obtain ⟨hone, hrefused⟩ := one_ciphertext_for_one_text .aes192Gcm registry 16 [112]
  obtain ⟨⟨body, tag, hparts, htag, hbody, hforged⟩, hshort⟩ := hrefused e [1, 2] .scrypt hopens
  refine ⟨e, hopens, fun data hother => ?_, ⟨body, tag, hparts, htag, hbody, ?_⟩, ?_⟩
  · exact hone e { e with data } rfl rfl rfl _ _ _ hopens hother
  · refine hforged _ (by rw [List.length_map, htag]) fun hsame => ?_
    cases tag with
    | nil => cases htag
    | cons x rest =>
      have hx : x + 1 = x := (List.cons.inj hsame).1
      simp at hx
  · exact hshort [1, 2, 3] (by decide)

end Lockbox.Codec
