import AbiCalls.Proofs.AddressText
import AbiCalls.Proofs.DirectText
import AbiCalls.Proofs.NameMaps
import AbiCalls.Settings

namespace AbiCalls

theorem IntRange.toNat_within_word (n : UInt64) :
    IntRange.word.least ≤ (n.toNat : Int) ∧ (n.toNat : Int) ≤ IntRange.word.greatest := by
  have bound := n.toNat_lt
  simp only [IntRange.word]
  omega

theorem Json.asUInt64_toNat (n : UInt64) : (Json.int n.toNat).asUInt64 = .ok n := by
  simp only [asUInt64, asIntIn, IntRange.toNat_within_word, and_self, if_true, bind, Except.bind, pure,
    Except.pure, Int.toNat_natCast, UInt64.ofNat_toNat]

namespace Settings

def addressFields (entries : List (String × Address)) : List (String × Json) :=
  entries.map fun e => (e.1, e.2.toJson)

theorem takesField_readAddressField (m : DefaultAddresses) (name : String) (a : Address) :
    TakesField readAddressField m (name, a.toJson) (m.insert name a) := by
  intro rest _
  have value : readScalar Address.ofJson (Input.ofChars a.toJson.chars ++ rest) = .ok (a, rest) :=
    Address.readScalar_of_value (fun readNested => readValueWith_str readNested a.text rest) a.ofJson_toJson
  simp only [readAddressField, readColon_colon, liftText, value, bind, Except.bind, pure, Except.pure]

theorem takesFields_readAddressField (entries : List (String × Address)) (m : DefaultAddresses) :
    TakesFields readAddressField m (addressFields entries)
      (entries.foldl (fun m e => m.insert e.1 e.2) m) := by
  induction entries generalizing m with
  | nil => exact .nil m
  | cons e entries ih => exact .cons (takesField_readAddressField m e.1 e.2) (ih (m.insert e.1 e.2))

theorem readAddresses_written (addresses : DefaultAddresses) (rest : Input) :
    readAddresses (Input.ofChars (Json.object (addressFields addresses.entries)).chars ++ rest) =
      .ok (addresses, rest) := by
  have taken := takesFields_readAddressField addresses.entries .empty
  obtain ⟨cs, written, read⟩ := foldFields_written taken rest
  have whole : addresses.entries.foldl (fun m e => m.insert e.1 e.2) .empty = addresses :=
    addresses.ofList_entries
  rw [whole] at read
  rw [written, Input.ofChars_cons, List.cons_append]
  exact read

theorem readInterval_written (ms : UInt64) {rest : Input} (ends : EndsField rest) :
    readInterval (Input.ofChars (Json.int ms.toNat).chars ++ rest) = .ok (some ms, rest) := by
  have decoded : Json.asOptional Json.asUInt64 (.int ms.toNat) = .ok (some ms) := by
    simp only [Json.asOptional, Json.asUInt64_toNat, bind, Except.bind, pure, Except.pure]
  exact Address.readScalar_of_value (fun readNested => readValueWith_int readNested ms.toNat_lt ends)
    decoded

def fields (s : Settings) : List (String × Json) :=
  ("default_addresses", .object (addressFields s.defaultAddresses.entries)) ::
    s.watchInterval.toList.map fun ms => ("watch_interval_ms", .int ms.toNat)

theorem toJson_eq (s : Settings) : s.toJson = .object s.fields := by
  obtain ⟨addresses, _ | ms⟩ := s
  · rfl
  · rfl

theorem takesField_addresses (addresses : DefaultAddresses) :
    TakesField readField {} ("default_addresses", .object (addressFields addresses.entries))
      { defaultAddresses := some addresses } := by
  intro rest _
  simp only [readField, if_true, Option.isSome_none, Bool.false_eq_true, if_false, readColon_colon,
    liftText, readAddresses_written, bind, Except.bind, pure, Except.pure]

theorem takesField_interval (addresses : DefaultAddresses) (ms : UInt64) :
    TakesField readField { defaultAddresses := some addresses }
      ("watch_interval_ms", .int ms.toNat) ⟨some addresses, some (some ms)⟩ := by
  intro rest ends
  have other : "watch_interval_ms" ≠ "default_addresses" := by decide
  simp only [readField, other, if_true, Option.isSome_none, Bool.false_eq_true, if_false, readColon_colon,
    liftText, readInterval_written ms ends, bind, Except.bind, pure, Except.pure]

def draft (s : Settings) : Draft :=
  ⟨some s.defaultAddresses, s.watchInterval.map some⟩

theorem finish_draft (s : Settings) : s.draft.finish = s := by
  obtain ⟨addresses, _ | ms⟩ := s
  · rfl
  · rfl

theorem takesFields_readField (s : Settings) : TakesFields readField {} s.fields s.draft := by
  obtain ⟨addresses, _ | ms⟩ := s
  · exact .cons (takesField_addresses addresses) (.nil _)
  · exact .cons (takesField_addresses addresses) (.cons (takesField_interval addresses ms) (.nil _))

theorem readDraft_written (s : Settings) (rest : Input) :
    readDraft (Input.ofChars s.toJson.chars ++ rest) = .ok (s.draft, rest) := by
  obtain ⟨cs, written, read⟩ := foldFields_written s.takesFields_readField rest
  rw [toJson_eq, written, Input.ofChars_cons, List.cons_append]
  exact read

theorem ofText_text (s : Settings) : ofText s.text = .ok s := by
  have read : ofSymbols (Symbol.ofText s.text) = .ok s := by
    rw [ofSymbols, readAlone, text, Symbol.ofText_compact, readDraft_written]
    exact congrArg Except.ok s.finish_draft
  rw [ofText, read]
  rfl

theorem ofFile_utf8Bytes (path text : String) :
    ofFile path (.ok (.file (utf8Bytes text))) = ofText text := by
  rw [ofFile, Symbol.ofBytes_utf8Bytes, ofText]

end Settings

/-- Settings that are written come back, from the text or from a file. Whatever text they were read from, they are
written as one text ever after. -/
theorem settings_text_round_trip :
    (∀ s : Settings, Settings.ofText s.text = .ok s ∧
      ∀ path, Settings.ofFile path (.ok (.file (utf8Bytes s.text))) = .ok s) ∧
    ∀ (text : String) (s : Settings), Settings.ofText text = .ok s →
      ∃ again, Settings.ofText s.text = .ok again ∧ again = s ∧ again.text = s.text := by
  refine ⟨fun s => ⟨s.ofText_text, fun path => ?_⟩, fun text s _ => ⟨s, s.ofText_text, rfl, rfl⟩⟩
  rw [Settings.ofFile_utf8Bytes, s.ofText_text]

/-- The values alone, in a list. The name of the contract has escapes, its address is in letters of both cases, and
the interval is the greatest there is. -/
def listedText : String :=
  "\n[ \x7b \"caf\\u00e9 \\\"\\ud83d\\ude00\\u0001\" :\" 0XAbaBABabAbaBABabAbaBABabAbaBABabAbaBABab\" \x7d , "
    ++ "18446744073709551615 ]"

def listedSettings : Settings where
  defaultAddresses := .ofList [("café \"😀\x01", ⟨List.replicate addressSize 0xab, rfl⟩)]
  watchInterval := some 18446744073709551615

theorem listedText_round_trip :
    Settings.ofText listedText = .ok listedSettings ∧ Settings.ofText listedSettings.text = .ok listedSettings ∧
      Settings.ofFile "config.json" (.ok (.file (utf8Bytes listedSettings.text))) = .ok listedSettings := by
  obtain ⟨written, rewritten⟩ := settings_text_round_trip
  have found : (Settings.ofText listedText).toOption.map (fun s => (s.defaultAddresses.entries, s.watchInterval)) =
      some (listedSettings.defaultAddresses.entries, listedSettings.watchInterval) := by decide +kernel
  cases read : Settings.ofText listedText with
  | error e =>
    rw [read] at found
    cases found
  | ok s =>
    rw [read] at found
    obtain ⟨again, readAgain, same, -⟩ := rewritten listedText s read
    subst same
    obtain ⟨⟨entries, ascending⟩, interval⟩ := again
    cases found
    exact ⟨rfl, readAgain, (written listedSettings).2 "config.json"⟩

end AbiCalls
